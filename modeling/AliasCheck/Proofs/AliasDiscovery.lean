import AliasCheck.Proofs.Statements
import Mathlib.Data.List.Forall2

/-!
# Which aliases a program has

The aliases of a program are those that stand outside all brackets of its source, in order. A place
where one could begin is a `type Name =` or `type Name<` outside all brackets. Every alias begins at
such a place, and every such place begins an alias, unless it is a part of an alias that began
before or stands behind a word that hides the declaration.

Statements are gone through from left to right with `Covers`, which says all of this of a stretch of
the tokens. What keeps it going is that every statement begins outside all brackets, which holds as
long as the brackets of the source are nested properly.
-/

namespace AliasCheck

open Grammar AliasCheck.Bracket

/-- The aliases that the statements of a program declare, in order. -/
def Program.aliases (program : Program) : List Alias := program.filterMap Statement.alias?

/-- The place of a declaration in a list of tokens. -/
structure Span where
  /-- The position of the first token. -/
  start : Nat
  /-- The position behind the last token. -/
  stop : Nat
  deriving DecidableEq, Repr

/-- The tokens at position `i` could begin an alias declaration and stand outside all brackets. -/
structure AliasHead (tokens : List Token) (i : Nat) : Prop where
  outside : openAfter isCode [] (tokens.take i) = some []
  head : startsAlias (tokens.drop i) = true

/-- The token in front of position `i` is a word that hides a declaration. -/
def IsHidden (tokens : List Token) (i : Nat) : Prop :=
  ∃ t, (tokens.take i).getLast? = some t ∧ (t.isWord "opaque" || t.isWord "declare") = true

/-- The tokens in a span are a declaration of `a`. -/
structure Declares (tokens : List Token) (span : Span) (a : Alias) : Prop where
  head : AliasHead tokens span.start
  lt : span.start < span.stop
  le : span.stop ≤ tokens.length
  reads : declaration tokens.length (tokens.drop (span.start + 1))
    = .ok (a, tokens.drop span.stop)

/-- From position `start` up to `stop` the tokens declare exactly these aliases, in these spans. -/
structure Covers (tokens : List Token) (start stop : Nat) (aliases : List Alias)
    (spans : List Span) : Prop where
  declares : List.Forall₂ (Declares tokens) spans aliases
  within : ∀ span ∈ spans, start ≤ span.start ∧ span.stop ≤ stop
  ordered : spans.Pairwise fun span later => span.stop ≤ later.start
  complete : ∀ i, start ≤ i → i < stop → AliasHead tokens i →
    (∀ span ∈ spans, ¬ (span.start < i ∧ i < span.stop)) → ¬ IsHidden tokens i →
    ∃ span ∈ spans, span.start = i

namespace Covers

variable {tokens : List Token} {start middle stop : Nat} {aliases more : List Alias}
  {spans others : List Span}

/-- A stretch in which no alias could begin, or only a hidden one. -/
theorem none (h : ∀ i, start ≤ i → i < stop → AliasHead tokens i → IsHidden tokens i) :
    Covers tokens start stop [] [] where
  declares := .nil
  within := by simp
  ordered := .nil
  complete := fun i hi hi' hhead _ hhidden => absurd (h i hi hi' hhead) hhidden

theorem append (h : Covers tokens start middle aliases spans)
    (h' : Covers tokens middle stop more others) (hstart : start ≤ middle) (hstop : middle ≤ stop) :
    Covers tokens start stop (aliases ++ more) (spans ++ others) where
  declares := List.rel_append h.declares h'.declares
  within := by
    intro span hspan
    rcases List.mem_append.mp hspan with hspan | hspan
    · have := h.within span hspan
      omega
    · have := h'.within span hspan
      omega
  ordered := by
    refine List.pairwise_append.mpr ⟨h.ordered, h'.ordered, ?_⟩
    intro span hspan later hlater
    have := h.within span hspan
    have := h'.within later hlater
    omega
  complete := by
    intro i hi hi' hhead houtside hhidden
    rcases Nat.lt_or_ge i middle with hlt | hge
    · obtain ⟨span, hspan, heq⟩ := h.complete i hi hlt hhead
        (fun span hspan => houtside span (List.mem_append_left _ hspan)) hhidden
      exact ⟨span, List.mem_append_left _ hspan, heq⟩
    · obtain ⟨span, hspan, heq⟩ := h'.complete i hge hi' hhead
        (fun span hspan => houtside span (List.mem_append_right _ hspan)) hhidden
      exact ⟨span, List.mem_append_right _ hspan, heq⟩

end Covers

/-! ## Statement by statement -/

section Statement

variable {before ts used r : List Token}

theorem startsStatement_of_startsAlias (h : startsAlias ts = true) : startsStatement ts = true := by
  cases ts with
  | nil => cases h
  | cons t ts => simp [startsStatement, h]

/-- In code that is skipped no alias begins behind the first token. -/
theorem Skips.no_head (h : Skips true [] used r) (hbefore : Balanced isCode before) {i : Nat}
    (hi : before.length < i) (hi' : i < before.length + used.length) :
    ¬ AliasHead (before ++ (used ++ r)) i := by
  intro hhead
  obtain ⟨n, rfl⟩ := Nat.exists_eq_add_of_lt hi
  have htake : (before ++ (used ++ r)).take (before.length + n + 1)
      = before ++ used.take (n + 1) := by
    rw [Nat.add_assoc, List.take_length_add_append, List.take_append_of_le_length (by omega)]
  have hdrop : (before ++ (used ++ r)).drop (before.length + n + 1) = used.drop (n + 1) ++ r := by
    rw [Nat.add_assoc, List.drop_length_add_append, List.drop_append_of_le_length (by omega)]
  have hopen := hhead.outside
  rw [htake, openAfter_append, hbefore, Option.bind_some] at hopen
  have hfalse := h.boundary (used.take (n + 1)) (used.drop (n + 1)) (List.take_append_drop ..).symm
    (by
      rw [Ne, List.drop_eq_nil_iff]
      omega)
    (by
      intro _ hnil
      rcases List.take_eq_nil_iff.mp hnil with h | rfl
      · cases h
      · rw [List.length_nil] at hi'
        omega)
    hopen
  have hstart := hhead.head
  rw [hdrop] at hstart
  rw [startsStatement_of_startsAlias hstart] at hfalse
  cases hfalse

theorem no_head_at (h : startsAlias ts = false) : ¬ AliasHead (before ++ ts) before.length := by
  intro hhead
  have hstart := hhead.head
  rw [List.drop_left, h] at hstart
  cases hstart

/-- A word in front of a stretch begins no alias, unless it is the word that aliases begin with. -/
theorem Covers.cons_word {t : Token} {word : String} {stop : Nat} {aliases : List Alias}
    {spans : List Span} (ht : t.isWord word = true) (hword : word ≠ "type")
    (h : Covers (before ++ t :: ts) (before.length + 1) stop aliases spans)
    (hstop : before.length + 1 ≤ stop) :
    Covers (before ++ t :: ts) before.length stop aliases spans := by
  refine Covers.append (.none ?_) h (Nat.le_succ _) hstop
  intro i hi hi' hhead
  cases (by omega : i = before.length)
  refine absurd hhead (no_head_at ?_)
  cases hstart : startsAlias (t :: ts) with
  | false => rfl
  | true => cases ht.symm.trans (Token.isWord_ne (isWord_of_startsAlias hstart) hword.symm)

/-- A statement declares the aliases that begin in it outside all brackets. -/
theorem Covers.statement {before ts r : List Token} {s : Statement} (hs : ReadsStatement ts s r)
    (hbefore : Balanced isCode before) (hts : Balanced isCode ts) :
    ∃ used spans, ts = used ++ r ∧ Balanced isCode used ∧
      Covers (before ++ ts) before.length (before.length + used.length) s.alias?.toList spans := by
  induction hs generalizing before with
  | @exported t ts r s ht hne hs ih =>
    have hword := balanced_word ht
    obtain ⟨used, spans, rfl, hused, hcovers⟩ :=
      ih (hbefore.append hword) (hts.of_cons hword)
    refine ⟨t :: used, spans, rfl, hword.append hused, .cons_word ht (by decide) ?_ (by simp)⟩
    have hlen : (before ++ [t]).length + used.length = before.length + (t :: used).length := by
      simp only [List.length_append, List.length_cons, List.length_nil]
      omega
    rw [hlen, List.append_assoc, List.length_append] at hcovers
    exact hcovers
  | @hidden t ts ht =>
    have hword : Balanced isCode [t] := by
      rcases Bool.or_eq_true_iff.mp ht with h | h <;> exact balanced_word h
    obtain ⟨used, hsplit, hskips⟩ := skips_skipStatement_zero true (hts.of_cons hword)
    refine ⟨t :: used, [], by rw [List.cons_append, ← hsplit], hword.append hskips.closed, ?_⟩
    have hrest : Covers (before ++ t :: ts) (before.length + 1)
        (before.length + (t :: used).length) [] [] := by
      refine .none fun i hi hi' hhead => ?_
      rcases Nat.eq_or_lt_of_le hi with rfl | hlt
      · -- The token behind the word may begin an alias, but a hidden one.
        refine ⟨t, ?_, ht⟩
        rw [List.take_length_add_append]
        simp
      · rw [List.length_cons] at hi'
        have hno := hskips.no_head (hbefore.append hword) (i := i)
          (by rw [List.length_append]; exact hlt)
          (by rw [List.length_append, List.length_singleton]; omega)
        rw [← hsplit, List.append_assoc] at hno
        exact absurd hhead hno
    rcases Bool.or_eq_true_iff.mp ht with h | h
    all_goals exact .cons_word h (by decide) hrest (by simp)
  | @declares t ts r a ht ha =>
    have hword := balanced_word (isWord_of_startsAlias ht)
    obtain ⟨used, rfl, -, hused⟩ := ha.consumed
    have hstop : (before ++ t :: (used ++ r)).drop (before.length + (t :: used).length) = r := by
      rw [List.drop_length_add_append, ← List.cons_append, List.drop_left]
    have hhead : AliasHead (before ++ t :: (used ++ r)) before.length :=
      ⟨by rw [List.take_left]; exact hbefore, by rw [List.drop_left]; exact ht⟩
    refine ⟨t :: used, [⟨before.length, before.length + (t :: used).length⟩], rfl,
      hword.append hused, ?_, ?_, ?_, ?_⟩
    · refine .cons ⟨hhead, by simp, by simp, ?_⟩ .nil
      rw [hstop, List.drop_length_add_append]
      exact (declaration_eq_ok (by simp; omega)).mpr ha
    · simp
    · simp
    · intro i hi hi' _ houtside _
      have := houtside _ (List.mem_singleton_self _)
      exact ⟨_, List.mem_singleton_self _, by dsimp only at this ⊢; omega⟩
  | @other t ts hexport hhidden halias =>
    obtain ⟨used, hsplit, hskips⟩ := skips_skipStatement_zero true hts
    refine ⟨used, [], hsplit, hskips.closed, .none fun i hi hi' hhead => ?_⟩
    rcases Nat.eq_or_lt_of_le hi with rfl | hlt
    · exact absurd hhead (no_head_at halias)
    · have hno := hskips.no_head hbefore hlt hi'
      rw [← hsplit] at hno
      exact absurd hhead hno

/-- So do all the statements of a program. -/
theorem Covers.program {before ts : List Token} {p : Program} (hp : Runs ts p)
    (hbefore : Balanced isCode before) (hts : Balanced isCode ts) :
    ∃ spans, Covers (before ++ ts) before.length (before ++ ts).length p.aliases spans := by
  induction hp generalizing before with
  | nil => exact ⟨[], .none fun i hi hi' => by simp at hi'; omega⟩
  | @empty t ts p ht hp ih =>
    have hplain : Balanced isCode [t] := .plain (by rw [ht]; rfl) (by rw [ht]; rfl)
    obtain ⟨spans, hcovers⟩ := ih (hbefore.append hplain) (hts.of_cons hplain)
    rw [List.append_assoc, List.singleton_append] at hcovers
    have hfirst : Covers (before ++ t :: ts) before.length (before.length + 1) [] [] := by
      refine .none fun i hi hi' hhead => ?_
      cases (by omega : i = before.length)
      refine absurd hhead (no_head_at ?_)
      cases hstart : startsAlias (t :: ts) with
      | false => rfl
      | true =>
        have hword := isWord_of_startsAlias hstart
        simp [Token.isWord, ht] at hword
    rw [List.length_append] at hcovers
    exact ⟨spans, .append hfirst hcovers (Nat.le_succ _) (by simp)⟩
  | @statement t ts r s p ht hs hp ih =>
    obtain ⟨used, spans, hsplit, hused, hcovers⟩ := Covers.statement hs hbefore hts
    rw [hsplit] at hts hcovers ⊢
    obtain ⟨others, hrest⟩ := ih (hbefore.append hused) (hts.of_append hused)
    rw [List.append_assoc, List.length_append] at hrest
    have haliases : Program.aliases (s :: p) = s.alias?.toList ++ p.aliases := by
      cases h : s.alias? <;> simp [Program.aliases, h]
    rw [haliases]
    exact ⟨spans ++ others, hcovers.append hrest (by simp) (by simp)⟩

end Statement

/-! ## Sources -/

/-- The aliases of a source are, in order, what is declared outside all brackets: every alias of the
program begins at an alias head, and every alias head begins one of the aliases unless it stands
inside an earlier declaration or behind a word that hides it. -/
theorem Program.aliases_of_parse {source : String} {program : Program} {tokens : List Token}
    (hparse : Program.parse source = .ok program)
    (hscan : Token.scan (blankDeclarations source.toList) = .ok tokens)
    (hnested : Balanced isCode tokens) :
    ∃ spans, Covers tokens 0 tokens.length program.aliases spans :=
  Covers.program ((parse_eq_ok hscan).mp hparse) Balanced.nil hnested

/-- Of the five places in this source that look like aliases, those in braces, behind `declare` and
inside another declaration are none. -/
theorem Program.aliases_of_parse_example :
    ∃ source program tokens spans,
      source =
        "\x7b type A = 1 \x7d export type B<T> = ?T; declare type C = 2; type D = type E = 3" ∧
      Program.parse source = .ok program ∧
      Token.scan (blankDeclarations source.toList) = .ok tokens ∧ Balanced isCode tokens ∧
      program.aliases.map Alias.name = ["B", "D"] ∧
      Covers tokens 0 tokens.length program.aliases spans := by
  generalize hsource :
    "\x7b type A = 1 \x7d export type B<T> = ?T; declare type C = 2; type D = type E = 3"
      = source
  have hnames : (Program.parse source).map (fun p => p.aliases.map Alias.name)
      = .ok ["B", "D"] := by
    subst hsource
    decide +kernel
  have hopen : (Token.scan (blankDeclarations source.toList)).map (openAfter isCode [])
      = .ok (some []) := by
    subst hsource
    decide +kernel
  obtain ⟨program, hparse, haliases⟩ := map_eq_ok.mp hnames
  obtain ⟨tokens, hscan, hnested⟩ := map_eq_ok.mp hopen
  obtain ⟨spans, hcovers⟩ := Program.aliases_of_parse hparse hscan hnested
  exact ⟨source, program, tokens, spans, rfl, hparse, hscan, hnested, haliases, hcovers⟩

end AliasCheck
