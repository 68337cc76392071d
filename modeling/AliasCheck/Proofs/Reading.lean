import AliasCheck.Proofs.Brackets
import AliasCheck.TypeTerm.Grammar

/-!
# What the readers of terms read

The readers of type terms are functions that count down a bound and look ahead. Here the language
that they read is a relation: `Reads p ts x r` says that a phrase of sort `p` stands at the
beginning of the tokens `ts`, that it denotes `x`, and that `r` is left. Its rules are those of the
grammar, one for each form. Nothing in them is bounded, and the only thing they say about tokens
behind a phrase is where it cannot go on. In particular, whether a parenthesis begins a function
type shows in what stands behind the group.

Facts about successful readings are proved by induction on this relation. `consumed` is the first:
what is read is a beginning of the tokens in which all brackets are closed.
-/

namespace AliasCheck

open Grammar

/-! ## Phrases -/

/-- The ways of joining terms by an operator. -/
inductive Joint where
  | union | intersection
  deriving DecidableEq, Repr

namespace Joint

/-- The operator, which may also stand in front of the first term. -/
def operator : Joint → Token.Kind
  | union => .pipe
  | intersection => .ampersand

/-- The tokens after the operator, if it comes next and joins a further term. -/
def next? : Joint → List Token → Option (List Token)
  | union => unionBar?
  | intersection => eat? .ampersand

/-- The term that joined terms amount to; a single one stands for itself. -/
def join (joint : Joint) (first : TypeTerm) (more : List TypeTerm) : TypeTerm :=
  if more.isEmpty then first
  else match joint with
    | union => .union (first :: more)
    | intersection => .intersection (first :: more)

end Joint

/-- The sorts of phrases. -/
inductive Phrase where
  /-- A whole term: terms joined by bars. -/
  | term
  /-- Terms joined by ampersands. -/
  | conjunct
  /-- A term with the question marks in front of it and the array brackets behind it. -/
  | operand
  /-- A term that no operator joins. -/
  | primary
  /-- Further terms, each behind the operator. -/
  | more (joint : Joint)
  /-- Phrases separated by commas in a bracket, and the end of the bracket. -/
  | items (bracket : Bracket) (item : Phrase)
  /-- A term behind a colon or an equals sign, if one comes next. -/
  | behind (kind : Token.Kind)
  | typeParam
  /-- Type parameters in angle brackets, if there are any. -/
  | typeParams
  | param
  /-- A function whose result stands behind an arrow or a colon. -/
  | function (separator : Token.Kind)
  /-- One member of an object type. -/
  | member
  /-- Members of an object type and its end. -/
  | members (exact : Bool)

namespace Phrase

/-- What a phrase of each sort denotes. -/
@[reducible] def Value : Phrase → Type
  | term | conjunct | operand | primary | param | function _ => TypeTerm
  | more _ => List TypeTerm
  | items _ item => List item.Value
  | behind _ => Unit
  | typeParam => String
  | typeParams => List String
  | member => Option Member
  | members _ => List Member

/-- The number of tokens that a phrase of each sort has at least. -/
def least : Phrase → Nat
  | more _ | behind _ | typeParams => 0
  | _ => 1

/-- The brackets that a phrase of each sort closes without having opened them. -/
def pending : Phrase → List Bracket
  | items bracket _ => [bracket]
  | members _ => [.brace]
  | _ => []

end Phrase

/-! ## The rules -/

open Phrase in
/-- A phrase stands at the beginning of a list of tokens, denotes a value and leaves the rest. -/
inductive Reads : (p : Phrase) → List Token → p.Value → List Token → Prop where
  | term {ts r r' : List Token} {first : TypeTerm} {rest : List TypeTerm}
      (hfirst : Reads conjunct (skip .pipe ts) first r) (hrest : Reads (more .union) r rest r') :
      Reads term ts (Joint.union.join first rest) r'
  | conjunct {ts r r' : List Token} {first : TypeTerm} {rest : List TypeTerm}
      (hfirst : Reads operand (skip .ampersand ts) first r)
      (hrest : Reads (more .intersection) r rest r') :
      Reads conjunct ts (Joint.intersection.join first rest) r'
  | noMore {joint : Joint} {ts : List Token} (h : joint.next? ts = none) :
      Reads (more joint) ts [] ts
  | moreUnion {ts r r' r'' : List Token} {x : TypeTerm} {xs : List TypeTerm}
      (h : Joint.union.next? ts = some r) (hx : Reads conjunct r x r')
      (hxs : Reads (more .union) r' xs r'') : Reads (more .union) ts (x :: xs) r''
  | moreIntersection {ts r r' r'' : List Token} {x : TypeTerm} {xs : List TypeTerm}
      (h : Joint.intersection.next? ts = some r) (hx : Reads operand r x r')
      (hxs : Reads (more .intersection) r' xs r'') :
      Reads (more .intersection) ts (x :: xs) r''
  | nullable {t : Token} {ts r : List Token} {x : TypeTerm} (ht : t.kind = .question)
      (hx : Reads operand ts x r) : Reads operand (t :: ts) (.nullable x) r
  | suffixed {ts r : List Token} {x : TypeTerm} (h : startsWith .question ts = false)
      (hx : Reads primary ts x r) : Reads operand ts (arrays x r).1 (arrays x r).2
  -- Terms that no operator joins.
  | object {t : Token} {ts r : List Token} {ms : List Member} (ht : t.kind = .openBrace)
      (hms : Reads (members (startsWith .pipe ts)) (skip .pipe ts) ms r) :
      Reads primary (t :: ts) (.object ms (startsWith .pipe ts)) r
  | tuple {t : Token} {ts r : List Token} {xs : List TypeTerm} (ht : t.kind = .openBracket)
      (hxs : Reads (items .square term) ts xs r) : Reads primary (t :: ts) (.tuple xs) r
  | group {t c : Token} {ts r : List Token} {x : TypeTerm} (ht : t.kind = .openParen)
      (hx : Reads term ts x (c :: r)) (hc : c.kind = .closeParen)
      (hr : startsWith .arrow r = false) : Reads primary (t :: ts) x r
  | functionType {t : Token} {ts r : List Token} {x : TypeTerm}
      (ht : t.kind = .openParen ∨ t.kind = .openAngle)
      (hx : Reads (function .arrow) (t :: ts) x r) : Reads primary (t :: ts) x r
  | stringLiteral {t : Token} {ts : List Token} (ht : t.kind = .string) :
      Reads primary (t :: ts) (.stringLiteral (StringLiteral.unquote t.text) t.text) ts
  | numberLiteral {t : Token} {ts : List Token} (ht : t.kind = .number) :
      Reads primary (t :: ts) (.numberLiteral t.text) ts
  | negativeLiteral {t n : Token} {ts : List Token} (ht : t.kind = .minus)
      (hn : n.kind = .number) : Reads primary (t :: n :: ts) (.numberLiteral ("-" ++ n.text)) ts
  | existential {t : Token} {ts : List Token} (ht : t.kind = .star) :
      Reads primary (t :: ts) .existential ts
  | word {t : Token} {ts : List Token} {x : TypeTerm} (ht : t.kind = .identifier)
      (hx : word? t.text = some x) : Reads primary (t :: ts) x ts
  | typeOf {t : Token} {ts r : List Token} {id : String} (ht : t.kind = .identifier)
      (htext : t.text = "typeof") (hid : qualifiedName ts = .ok (id, r)) :
      Reads primary (t :: ts) (.typeOf id) r
  | named {t : Token} {ts r : List Token} {id : String} (ht : t.kind = .identifier)
      (hword : word? t.text = none) (htext : t.text ≠ "typeof")
      (hid : qualifiedName (t :: ts) = .ok (id, r)) (hr : startsWith .openAngle r = false) :
      Reads primary (t :: ts) (.named id) r
  | applied {t o : Token} {ts r r' : List Token} {id : String} {args : List TypeTerm}
      (ht : t.kind = .identifier) (hword : word? t.text = none) (htext : t.text ≠ "typeof")
      (hid : qualifiedName (t :: ts) = .ok (id, o :: r)) (ho : o.kind = .openAngle)
      (hargs : Reads (items .angle term) r args r') :
      Reads primary (t :: ts) (.applied id args) r'
  -- Lists.
  | noItems {b : Bracket} {item : Phrase} {c : Token} {ts : List Token}
      (hc : c.kind = b.closer) : Reads (items b item) (c :: ts) [] ts
  | lastItem {b : Bracket} {item : Phrase} {c : Token} {ts r : List Token} {x : item.Value}
      (hitem : item.pending = []) (h : startsWith b.closer ts = false)
      (hx : Reads item ts x (c :: r)) (hc : c.kind = b.closer) : Reads (items b item) ts [x] r
  | item {b : Bracket} {item : Phrase} {c : Token} {ts r r' : List Token} {x : item.Value}
      {xs : List item.Value} (hitem : item.pending = [])
      (h : startsWith b.closer ts = false) (hx : Reads item ts x (c :: r)) (hc : c.kind = .comma)
      (hxs : Reads (items b item) r xs r') : Reads (items b item) ts (x :: xs) r'
  -- Parameters and functions.
  | notBehind {kind : Token.Kind} {ts : List Token} (hkind : kind = .colon ∨ kind = .equals)
      (h : startsWith kind ts = false) : Reads (behind kind) ts () ts
  | behind {kind : Token.Kind} {t : Token} {ts r : List Token} {x : TypeTerm}
      (hkind : kind = .colon ∨ kind = .equals) (ht : t.kind = kind) (hx : Reads term ts x r) :
      Reads (behind kind) (t :: ts) () r
  | typeParam {ts r r' r'' : List Token} {id : String}
      (hid : identifier (skipVariance ts) = .ok (id, r)) (hbound : Reads (behind .colon) r () r')
      (hdefault : Reads (behind .equals) r' () r'') : Reads typeParam ts id r''
  | noTypeParams {ts : List Token} (h : startsWith .openAngle ts = false) :
      Reads typeParams ts [] ts
  | typeParams {t : Token} {ts r : List Token} {ids : List String} (ht : t.kind = .openAngle)
      (hids : Reads (items .angle typeParam) ts ids r) : Reads typeParams (t :: ts) ids r
  | param {ts r : List Token} {x : TypeTerm}
      (hx : Reads term (skipParamName (skip .ellipsis ts)) x r) : Reads param ts x r
  | function {separator : Token.Kind} {o s : Token} {ts r r' r'' : List Token}
      {ids : List String} {params : List TypeTerm} {returns : TypeTerm}
      (hseparator : separator = .arrow ∨ separator = .colon)
      (hids : Reads typeParams ts ids (o :: r)) (ho : o.kind = .openParen)
      (hparams : Reads (items .paren param) r params (s :: r')) (hs : s.kind = separator)
      (hreturns : Reads term r' returns r'') :
      Reads (function separator) ts (.function params returns) r''
  -- Members of object types.
  | bareSpread {t : Token} {ts : List Token} (ht : t.kind = .ellipsis)
      (h : spreadEnds ts = true) : Reads member (t :: ts) none ts
  | spread {t : Token} {ts r : List Token} {x : TypeTerm} (ht : t.kind = .ellipsis)
      (h : spreadEnds ts = false) (hx : Reads term ts x r) : Reads member (t :: ts) none r
  | indexer {t c d : Token} {ts r r' : List Token} {k x : TypeTerm} (ht : t.kind = .openBracket)
      (hk : Reads term (skipIndexName ts) k (c :: d :: r)) (hc : c.kind = .closeBracket)
      (hd : d.kind = .colon) (hx : Reads term r x r') : Reads member (t :: ts) none r'
  | call {t : Token} {ts r : List Token} {x : TypeTerm}
      (ht : t.kind = .openParen ∨ t.kind = .openAngle)
      (hx : Reads (function .colon) (t :: ts) x r) : Reads member (t :: ts) none r
  | method {t k : Token} {ts r r' : List Token} {key : String} {x : TypeTerm}
      (ht : t.kind ∉ [.ellipsis, .openBracket, .openParen, .openAngle])
      (hk : skipVariance (t :: ts) = k :: r) (hkey : key? k = some key)
      (h : (startsWith .openParen r || startsWith .openAngle r) = true)
      (hx : Reads (function .colon) r x r') : Reads member (t :: ts) (some ⟨key, x, false⟩) r'
  | property {t k c : Token} {ts r r' r'' : List Token} {key : String} {x : TypeTerm}
      (ht : t.kind ∉ [.ellipsis, .openBracket, .openParen, .openAngle])
      (hk : skipVariance (t :: ts) = k :: r) (hkey : key? k = some key)
      (h : (startsWith .openParen r || startsWith .openAngle r) = false)
      (hc : skip .question r = c :: r') (hcolon : c.kind = .colon) (hx : Reads term r' x r'') :
      Reads member (t :: ts) (some ⟨key, x, startsWith .question r⟩) r''
  | noMembers {exact : Bool} {ts r : List Token} (h : objectEnd? exact ts = some r) :
      Reads (members exact) ts [] r
  | members {exact : Bool} {ts r r' r'' : List Token} {m : Option Member} {ms : List Member}
      (h : objectEnd? exact ts = none) (hm : Reads member ts m r)
      (hend : memberEnd exact r = .ok r') (hms : Reads (members exact) r' ms r'') :
      Reads (members exact) ts (m.toList ++ ms) r''

/-! ## Looking at the next tokens -/

namespace Grammar

variable {kind : Token.Kind} {ts r : List Token}

theorem startsWith_eq_true : startsWith kind ts = true ↔ ∃ t r, ts = t :: r ∧ t.kind = kind := by
  cases ts with
  | nil => simp [startsWith]
  | cons t ts => simp [startsWith]

@[simp] theorem startsWith_cons (t : Token) : startsWith kind (t :: ts) = (t.kind == kind) := rfl

@[simp] theorem startsWith_nil : startsWith kind [] = false := rfl

theorem eat?_eq_some : eat? kind ts = some r ↔ ∃ t, t.kind = kind ∧ ts = t :: r := by
  unfold eat?
  cases ts with
  | nil => simp
  | cons t ts =>
    rw [startsWith_cons]
    constructor
    · intro h
      split at h
      · rename_i ht
        cases h
        exact ⟨t, by simpa using ht, rfl⟩
      · cases h
    · rintro ⟨t', rfl, h⟩
      cases h
      simp

theorem eat?_eq_none : eat? kind ts = none ↔ startsWith kind ts = false := by
  unfold eat?
  cases startsWith kind ts <;> simp

theorem expect_eq_ok : expect kind ts = .ok r ↔ ∃ t, t.kind = kind ∧ ts = t :: r := by
  rw [← eat?_eq_some, expect]
  cases eat? kind ts <;> simp [unexpected]

theorem eat?_cons {kind : Token.Kind} {t : Token} (h : t.kind = kind) (ts : List Token) :
    eat? kind (t :: ts) = some ts := eat?_eq_some.mpr ⟨t, h, rfl⟩

/-- The tokens after ones of these kinds, if those are the next ones. -/
def eatAll? : List Token.Kind → List Token → Option (List Token)
  | [], ts => some ts
  | kind :: kinds, ts => (eat? kind ts).bind (eatAll? kinds)

theorem eatAll?_singleton (kind : Token.Kind) (ts : List Token) :
    eatAll? [kind] ts = eat? kind ts := Option.bind_fun_some _

theorem eatAll?_cons {t : Token} (ht : t.kind = kind) (kinds : List Token.Kind)
    (ts : List Token) : eatAll? (kind :: kinds) (t :: ts) = eatAll? kinds ts := by
  rw [eatAll?, eat?_cons ht, Option.bind_some]

theorem eatAll?_eq_some {kinds : List Token.Kind} : eatAll? kinds ts = some r ↔
    ∃ us, us.map Token.kind = kinds ∧ ts = us ++ r := by
  induction kinds generalizing ts with
  | nil => simp [eatAll?]
  | cons kind kinds ih =>
    rw [eatAll?, Option.bind_eq_some_iff]
    constructor
    · rintro ⟨us, hfirst, hmore⟩
      obtain ⟨t, ht, rfl⟩ := eat?_eq_some.mp hfirst
      obtain ⟨vs, hvs, rfl⟩ := ih.mp hmore
      exact ⟨t :: vs, by rw [List.map_cons, ht, hvs], rfl⟩
    · rintro ⟨us, hus, rfl⟩
      obtain ⟨t, vs, rfl, ht, hvs⟩ := List.map_eq_cons_iff.mp hus
      exact ⟨vs ++ r, eat?_cons ht _, ih.mpr ⟨vs, hvs, rfl⟩⟩

/-- A name that is complete does not go on with what follows. -/
theorem segments_of_noDot (name : String) (h : startsWith .dot ts = false) :
    segments name ts = .ok (name, ts) := by
  cases ts with
  | nil => rfl
  | cons d ts =>
    have hd : d.kind ≠ .dot := by simpa using h
    cases ts with
    | nil => simp [segments, hd]
    | cons t ts => simp [segments, hd]

/-- Without a pair of brackets behind it, a term is no array type. -/
theorem arrays_of_noBrackets (x : TypeTerm)
    (h : ∀ us, eat? .openBracket ts = some us → startsWith .closeBracket us = false) :
    arrays x ts = (x, ts) := by
  match ts, h with
  | [], _ => rfl
  | [_], _ => rfl
  | o :: c :: us, h =>
    rw [arrays, if_neg]
    rintro ⟨ho, hc⟩
    simpa [hc] using h (c :: us) (eat?_cons ho _)

theorem skip_eq (kind : Token.Kind) (ts : List Token) :
    skip kind ts = (eatAll? [kind] ts).getD ts := by
  rw [eatAll?_singleton, skip]

theorem skipIndexName_eq (ts : List Token) :
    skipIndexName ts = (eatAll? [.identifier, .colon] ts).getD ts := by
  match ts with
  | [] => rfl
  | [t] => by_cases ht : t.kind = .identifier <;> simp [skipIndexName, eatAll?, eat?, ht]
  | t :: c :: us =>
    by_cases ht : t.kind = .identifier <;> by_cases hc : c.kind = .colon <;>
      simp [skipIndexName, eatAll?, eat?, ht, hc]

/-- The name of a parameter may be optional. Otherwise it is skipped as that of a key is. -/
theorem skipParamName_eq (ts : List Token) :
    skipParamName ts = (eatAll? [.identifier, .question, .colon] ts).getD (skipIndexName ts) := by
  match ts with
  | [] => rfl
  | [t] => by_cases ht : t.kind = .identifier <;> simp [skipParamName, skipIndexName, eatAll?,
      eat?, ht]
  | t :: c :: us =>
    by_cases ht : t.kind = .identifier <;> by_cases hc : c.kind = .question <;>
      by_cases hus : startsWith .colon us = true <;>
      simp [skipParamName, skipIndexName, eatAll?, eat?, ht, hc, hus]

theorem skipParamName_eq_self (h : ∀ us, eat? .identifier ts = some us →
    startsWith .colon us = false ∧ startsWith .question us = false) : skipParamName ts = ts := by
  have hnone : ∀ kind kinds, (∀ us, eat? .identifier ts = some us → startsWith kind us = false) →
      eatAll? (.identifier :: kind :: kinds) ts = none := by
    refine fun kind kinds hkind => Option.bind_eq_none_iff.mpr fun us hus => ?_
    rw [eatAll?, eat?_eq_none.mpr (hkind us hus), Option.bind_none]
  rw [skipParamName_eq, hnone .question [.colon] fun us hus => (h us hus).2, Option.getD_none,
    skipIndexName_eq, hnone .colon [] fun us hus => (h us hus).1, Option.getD_none]

theorem objectEnd?_eq (exact' : Bool) (ts : List Token) : objectEnd? exact' ts
    = eatAll? (if exact' then [.pipe, .closeBrace] else [.closeBrace]) ts := by
  cases exact' with
  | false => exact (eatAll?_singleton .closeBrace ts).symm
  | true =>
    rw [objectEnd?, if_pos rfl, if_pos rfl, eatAll?]
    exact congrArg _ (funext fun us => (eatAll?_singleton .closeBrace us).symm)

end Grammar

/-! ## What is passed -/

section Passed

open AliasCheck.Bracket

variable {counts : Bracket → Bool} {kind : Token.Kind} {ts r : List Token}

theorem passes_eat? (ho : kind.opens? = none) (hc : kind.closes? = none)
    (h : eat? kind ts = some r) : Passes counts 1 [] ts r := by
  obtain ⟨t, rfl, rfl⟩ := eat?_eq_some.mp h
  exact .plain rfl ho hc r

theorem passes_skip (kind : Token.Kind) (ho : kind.opens? = none) (hc : kind.closes? = none)
    (ts : List Token) :
    Passes counts 0 [] ts (skip kind ts) := by
  unfold skip
  cases h : eat? kind ts with
  | none => exact .refl ts
  | some r => exact (passes_eat? ho hc h).mono (Nat.zero_le _)

theorem passes_skipVariance (ts : List Token) : Passes counts 0 [] ts (skipVariance ts) := by
  unfold skipVariance
  cases h : eat? .plus ts with
  | none => exact passes_skip _ rfl rfl ts
  | some r => exact (passes_eat? rfl rfl h).mono (Nat.zero_le _)

theorem identifier_eq_ok {id : String} :
    identifier ts = .ok (id, r) ↔ ∃ t, t.kind = .identifier ∧ t.text = id ∧ ts = t :: r := by
  cases ts with
  | nil => simp [identifier, unexpected]
  | cons t ts =>
    simp only [identifier, unexpected]
    constructor
    · intro h
      split at h
      · rename_i ht
        cases h
        exact ⟨t, ht, rfl, rfl⟩
      · cases h
    · rintro ⟨t', ht, rfl, h⟩
      cases h
      rw [if_pos ht]

theorem passes_identifier {id : String} (h : identifier ts = .ok (id, r)) :
    Passes counts 1 [] ts r := by
  obtain ⟨t, ht, -, rfl⟩ := identifier_eq_ok.mp h
  exact .plain ht rfl rfl r

theorem passes_segments {name id : String} (h : segments name ts = .ok (id, r)) :
    Passes counts 0 [] ts r := by
  fun_induction segments name ts with
  | case1 name d t ts hd =>
    cases h
    exact .refl _
  | case2 name d t ts hd ht ih =>
    have hdot : d.kind = .dot := by simpa using hd
    have hfirst : Passes counts 1 [] (d :: t :: ts) (t :: ts) :=
      .plain hdot rfl rfl _
    have hsecond : Passes counts 1 [] (t :: ts) ts :=
      .plain ht rfl rfl _
    exact (hfirst.trans (hsecond.trans (ih h))).mono (Nat.zero_le _)
  | case3 => cases h
  | case4 => cases h
  | case5 =>
    cases h
    exact .refl _
  | case6 =>
    cases h
    exact .refl _

theorem passes_qualifiedName {id : String} (h : qualifiedName ts = .ok (id, r)) :
    Passes counts 1 [] ts r := by
  unfold qualifiedName at h
  cases hid : identifier ts with
  | error e => rw [hid] at h; cases h
  | ok first =>
    rw [hid] at h
    exact (passes_identifier hid).trans (passes_segments h)

theorem passes_arrays (x : TypeTerm) (ts : List Token) :
    Passes counts 0 [] ts (arrays x ts).2 := by
  fun_induction arrays x ts with
  | case1 x o c ts h ih =>
    have hpair : Passes counts 1 [.square] (c :: ts) ts :=
      (Passes.refl _).closed h.2 rfl rfl
    exact ((hpair.opened h.1 rfl).trans ih).mono (Nat.zero_le _)
  | case2 => exact .refl _
  | case3 => exact .refl _

theorem passes_next? {joint : Joint} (h : joint.next? ts = some r) : Passes counts 1 [] ts r := by
  cases joint with
  | union => exact passes_eat? rfl rfl (Option.filter_eq_some_iff.mp h).1
  | intersection => exact passes_eat? rfl rfl h

theorem passes_eatAll? {kinds : List Token.Kind}
    (hkinds : ∀ k ∈ kinds, k.opens? = none ∧ k.closes? = none) (h : eatAll? kinds ts = some r) :
    Passes counts 0 [] ts r := by
  induction kinds generalizing ts with
  | nil =>
    cases h
    exact .refl _
  | cons kind kinds ih =>
    rw [List.forall_mem_cons] at hkinds
    obtain ⟨us, hfirst, hmore⟩ := Option.bind_eq_some_iff.mp h
    have hnext : Passes counts 1 [] ts us := passes_eat? hkinds.1.1 hkinds.1.2 hfirst
    exact (hnext.trans (ih hkinds.2 hmore)).mono (Nat.zero_le _)

theorem passes_skipIndexName (ts : List Token) : Passes counts 0 [] ts (skipIndexName ts) := by
  rw [skipIndexName_eq]
  cases h : eatAll? [.identifier, .colon] ts with
  | none => exact .refl ts
  | some r => exact passes_eatAll? (by decide) h

theorem passes_skipParamName (ts : List Token) : Passes counts 0 [] ts (skipParamName ts) := by
  rw [skipParamName_eq]
  cases h : eatAll? [.identifier, .question, .colon] ts with
  | none => exact passes_skipIndexName ts
  | some r => exact passes_eatAll? (by decide) h

theorem passes_key? {t : Token} {key : String} (h : key? t = some key) (ts : List Token) :
    Passes counts 1 [] (t :: ts) ts := by
  unfold key? at h
  split at h <;> rename_i ht
  iterate 3 exact .plain ht rfl rfl ts
  cases h

theorem passes_objectEnd? {exact' : Bool} (h : objectEnd? exact' ts = some r) :
    Passes counts 1 [.brace] ts r := by
  unfold objectEnd? at h
  have hclose : ∀ {us : List Token}, eat? .closeBrace us = some r →
      Passes counts 1 [.brace] us r := by
    intro us hus
    obtain ⟨c, hc, rfl⟩ := eat?_eq_some.mp hus
    exact (Passes.refl _).closed hc rfl rfl
  split at h
  · obtain ⟨us, hpipe, hus⟩ := Option.bind_eq_some_iff.mp h
    exact ((passes_eat? rfl rfl hpipe).trans (hclose hus)).mono (by omega)
  · exact hclose h

theorem passes_memberEnd {exact' : Bool} (h : memberEnd exact' ts = .ok r) :
    Passes counts 0 [] ts r := by
  unfold memberEnd at h
  split at h
  · rename_i hsemicolon
    cases h
    exact (passes_eat? rfl rfl hsemicolon).mono (Nat.zero_le _)
  · rename_i hcomma
    cases h
    exact (passes_eat? rfl rfl hcomma).mono (Nat.zero_le _)
  · cases h
    exact .refl _
  · cases h

/-- What is read is a beginning of the tokens in which all brackets are closed. -/
theorem Reads.consumed {p : Phrase} {ts r : List Token} {x : p.Value} (h : Reads p ts x r) :
    Passes counts p.least p.pending ts r := by
  induction h with
  | term _ _ hfirst hrest | conjunct _ _ hfirst hrest =>
    exact ((passes_skip _ rfl rfl _).trans (hfirst.trans hrest)).mono (by simp [Phrase.least])
  | noMore _ | notBehind _ _ | noTypeParams _ => exact .refl _
  | moreUnion h _ _ hx hxs | moreIntersection h _ _ hx hxs =>
    exact ((passes_next? h).trans (hx.trans hxs)).mono (Nat.zero_le _)
  | nullable ht _ hx =>
    exact ((Passes.plain ht rfl rfl _).trans hx).mono (by decide)
  | suffixed _ _ hx => exact hx.trans (passes_arrays _ _)
  | object ht _ hms =>
    exact (((passes_skip _ rfl rfl _).trans hms).opened ht rfl).mono (by simp [Phrase.least])
  | tuple ht _ hxs => exact (hxs.opened ht rfl).mono (by decide)
  | group ht _ hc _ hx =>
    exact ((hx.closed hc rfl rfl).opened ht rfl).mono (by decide)
  | functionType _ _ hx => exact hx
  | stringLiteral ht | numberLiteral ht | existential ht =>
    exact .plain ht rfl rfl _
  | negativeLiteral ht hn =>
    exact ((Passes.plain ht rfl rfl _).trans (.plain hn rfl rfl _)).mono (by decide)
  | word ht _ => exact .plain ht rfl rfl _
  | typeOf ht _ hid =>
    exact ((Passes.plain ht rfl rfl _).trans (passes_qualifiedName hid)).mono (by decide)
  | named _ _ _ hid _ => exact passes_qualifiedName hid
  | applied _ _ _ hid ho _ hargs =>
    exact ((passes_qualifiedName hid).trans (hargs.opened ho rfl)).mono (by decide)
  | @noItems b _ _ _ hc =>
    exact (Passes.refl _).closed hc (opens?_closer b) (closes?_closer b)
  | @lastItem b _ _ _ _ _ hitem _ _ hc hx =>
    rw [hitem] at hx
    exact (hx.closed hc (opens?_closer b) (closes?_closer b)).mono (Nat.le_add_left _ _)
  | item hitem _ _ hc _ hx hxs =>
    rw [hitem] at hx
    exact (hx.trans ((Passes.plain hc rfl rfl _).trans hxs)).mono
      (Nat.le_trans (Nat.le_add_right _ _) (Nat.le_add_left _ _))
  | behind hkind ht _ hx =>
    rcases hkind with rfl | rfl
    all_goals exact ((Passes.plain ht rfl rfl _).trans hx).mono (Nat.zero_le _)
  | typeParam hid _ _ hbound hdefault =>
    exact ((passes_skipVariance _).trans
      ((passes_identifier hid).trans (hbound.trans hdefault))).mono (by decide)
  | typeParams ht _ hids => exact (hids.opened ht rfl).mono (Nat.zero_le _)
  | param _ hx =>
    exact ((passes_skip _ rfl rfl _).trans ((passes_skipParamName _).trans hx)).mono (by decide)
  | @function separator _ _ _ _ _ _ _ _ _ hseparator _ ho _ hs _ hids hparams hreturns =>
    have hplain : separator.opens? = none ∧ separator.closes? = none := by
      rcases hseparator with rfl | rfl <;> exact ⟨rfl, rfl⟩
    have hresult := (Passes.plain hs hplain.1 hplain.2 _).trans hreturns
    exact (hids.trans ((hparams.opened ho rfl).trans hresult)).mono (by simp [Phrase.least])
  | bareSpread ht _ => exact .plain ht rfl rfl _
  | spread ht _ _ hx =>
    exact ((Passes.plain ht rfl rfl _).trans hx).mono (by decide)
  | indexer ht _ hc hd _ hk hx =>
    have hkey := ((passes_skipIndexName _).trans hk).closed hc rfl rfl
    have hvalue := (Passes.plain hd rfl rfl _).trans hx
    exact ((hkey.opened ht rfl).trans hvalue).mono (by decide)
  | call _ _ hx => exact hx
  | @method t _ ts _ _ _ _ _ hk hkey _ _ hx =>
    have hpassed : Passes counts 0 [] _ _ := passes_skipVariance (t :: ts)
    rw [hk] at hpassed
    exact (hpassed.trans ((passes_key? hkey _).trans hx)).mono (by decide)
  | @property t _ _ ts afterKey _ _ _ _ _ hk hkey _ hc hcolon _ hx =>
    have hpassed : Passes counts 0 [] _ _ := passes_skipVariance (t :: ts)
    rw [hk] at hpassed
    have hquestion : Passes counts 0 [] _ _ := passes_skip .question rfl rfl afterKey
    rw [hc] at hquestion
    have hvalue := (Passes.plain hcolon rfl rfl _).trans hx
    exact (hpassed.trans ((passes_key? hkey _).trans (hquestion.trans hvalue))).mono (by decide)
  | noMembers h => exact passes_objectEnd? h
  | members _ _ hend _ hm hms =>
    exact (hm.trans ((passes_memberEnd hend).trans hms)).mono (by simp [Phrase.least])

end Passed

end AliasCheck
