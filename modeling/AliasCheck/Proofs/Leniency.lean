import AliasCheck.Proofs.ErrorPlaces
import AliasCheck.Proofs.LongestTerms
import Mathlib.Data.List.Infix
import Mathlib.Logic.Function.Iterate

/-!
# What can be wrong with a program

Code that is skipped is never refused, whatever brackets and words stand in it. So if a text falls
into tokens, all that can be wrong with it is an alias declaration, and what is wrong there comes
after the name that is declared: by the first words of a declaration, `type Name =` or `type Name<`,
it has been told from other code. A text without such words is a program that declares nothing.
-/

namespace AliasCheck

open Grammar

/-! ## The place of a declaration -/

section

variable {t : Token} {ts us : List Token}

theorem StatementAt.suffix (h : StatementAt ts us) : us <:+ ts := by
  induction h with
  | here => exact List.suffix_rfl
  | exported _ _ _ ih => exact ih.trans (List.suffix_cons _ _)

theorem Begins.suffix (h : Begins ts us) : us <:+ ts := by
  induction h with
  | empty _ _ ih => exact ih.trans (List.suffix_cons _ _)
  | first _ h => exact h.suffix
  | later _ hs _ ih => exact ih.trans hs.suffix

theorem startsAlias_eq_true (h : startsAlias ts = true) : ∃ t n e more, ts = t :: n :: e :: more ∧
    t.isWord "type" = true ∧ n.kind = .identifier ∧ (e.kind = .equals ∨ e.kind = .openAngle) := by
  unfold startsAlias at h
  split at h
  · rename_i t n e more
    simp only [Bool.and_eq_true, Bool.or_eq_true, beq_iff_eq] at h
    exact ⟨t, n, e, more, rfl, h.1.1, h.1.2, h.2⟩
  · cases h

/-- Behind the name, a declaration only goes on. -/
theorem stops_declaration {n : Token} (hn : n.kind = .identifier) (bound : Nat) (ts : List Token) :
    Stops Prod.snd ts (declaration bound (n :: ts)) := by
  have hname : identifier (n :: ts) = .ok (n.text, ts) := identifier_eq_ok.mpr ⟨n, hn, rfl, rfl⟩
  rw [declaration, hname]
  refine (goesOn_optionalTypeParams (goesOn_term bound) bound ts).bind fun params => ?_
  refine (stops_expect .equals params.2).bind fun us => ?_
  exact (goesOn_term bound us).bind fun body => stops_ok (skip_suffix .semicolon body.2)

/-- If a program is refused, an alias declaration begins somewhere, and the token at fault is its
third or a later one, or there is none left. -/
theorem exists_declaration_of_error {bound : Nat} {u : Unexpected} (hts : ts.length ≤ bound)
    (h : program bound ts = .error u) :
    ∃ before t n e more r, ts = before ++ t :: n :: e :: more ∧
      startsAlias (t :: n :: e :: more) = true ∧ r <:+ e :: more ∧ u.found = r.head? := by
  obtain ⟨t, us, size, ⟨hbegins, hstarts⟩, -, hfails⟩ := program_eq_error hts h
  obtain ⟨_, n, e, more, ⟨⟩, -, hn, -⟩ := startsAlias_eq_true hstarts
  have hstops := stops_declaration hn size (e :: more)
  rw [hfails] at hstops
  obtain ⟨r, hr, hfound⟩ := hstops
  obtain ⟨before, hbefore⟩ := hbegins.suffix
  exact ⟨before, t, n, e, more, r, hbefore.symm, hstarts, hr, hfound⟩

end

/-! ## Programs that declare nothing -/

/-- A statement that declares no alias is code behind any number of `export`s. -/
theorem Statement.eq_iterate_of_alias? {s : Statement} (h : s.alias? = none) :
    ∃ n, s = Statement.exported^[n] .other := by
  induction s with
  | declares a => cases h
  | other => exact ⟨0, rfl⟩
  | exported inner ih =>
    obtain ⟨n, rfl⟩ := ih h
    exact ⟨n + 1, (Function.iterate_succ_apply' Statement.exported n .other).symm⟩

/-- Without the words that begin a declaration, the statements of a program are code. -/
theorem Runs.statements {ts : List Token} {p : Program} (h : Runs ts p)
    (hnone : ∀ i, startsAlias (ts.drop i) = false) :
    ∀ s ∈ p, ∃ n, s = Statement.exported^[n] .other := by
  intro s hs
  refine Statement.eq_iterate_of_alias? (Option.eq_none_iff_forall_ne_some.mpr fun a ha => ?_)
  obtain ⟨t, us, r, ⟨hbegins, hstarts⟩, -⟩ := h.alias_at (List.mem_filterMap.mpr ⟨s, hs, ha⟩)
  obtain ⟨before, rfl⟩ := hbegins.suffix
  have hfalse := hnone before.length
  rw [List.drop_left, hstarts] at hfalse
  cases hfalse

/-! ## Sources -/

namespace Program

/-- The token at fault stands no further in front than `e`, and neither does the end of the text. -/
theorem start_le_errorIn {text : List Char} {tokens before more r : List Token} {e : Token}
    {u : Unexpected} (hscan : Token.scan text = .ok tokens) (htokens : tokens = before ++ e :: more)
    (hr : r <:+ e :: more) (hfound : u.found = r.head?) :
    e.start ≤ (errorIn text u).offset := by
  obtain ⟨-, hplaces, hordered⟩ := Token.tiles_of_scan hscan
  rw [htokens] at hplaces hordered
  have he := hplaces e (by simp)
  obtain ⟨expected, found⟩ := u
  dsimp only at hfound
  cases found with
  | none => exact Nat.le_trans (Nat.le_of_lt he.1) he.2.1
  | some t =>
    rcases List.mem_cons.mp (hr.mem (List.mem_of_mem_head? hfound.symm)) with rfl | hlater
    · exact Nat.le_refl _
    · have hbehind := (List.pairwise_append.mp hordered).2.1
      exact Nat.le_trans (Nat.le_of_lt he.1) ((List.pairwise_cons.mp hbehind).1 t hlater)

/-- If a text falls into tokens, then all that can be wrong with it is an alias declaration, from
the third token on. Where no alias declaration begins there is nothing wrong, and all statements are
code that declares nothing, behind any number of `export`s. -/
theorem declaration_of_error {source : String} {tokens : List Token}
    (hscan : Token.scan (blankDeclarations source.toList) = .ok tokens) :
    (∀ e, parse source = .error e → ∃ i third, startsAlias (tokens.drop i) = true ∧
      tokens[i + 2]? = some third ∧ third.start ≤ e.offset ∧
      e.position = Position.ofOffset (blankDeclarations source.toList) e.offset) ∧
    ((∀ i, startsAlias (tokens.drop i) = false) →
      ∃ p, parse source = .ok p ∧ ∀ s ∈ p, ∃ n, s = Statement.exported^[n] .other) := by
  have hplace : ∀ e, parse source = .error e → ∃ i third, startsAlias (tokens.drop i) = true ∧
      tokens[i + 2]? = some third ∧ third.start ≤ e.offset ∧
      e.position = Position.ofOffset (blankDeclarations source.toList) e.offset := by
    intro e herror
    rcases parse_eq_error herror with hbroken | ⟨tokens', u, hscan', hfails, rfl⟩
    · cases hscan.symm.trans hbroken
    · cases hscan.symm.trans hscan'
      obtain ⟨before, t, n, third, more, r, rfl, hstarts, hr, hfound⟩ :=
        exists_declaration_of_error (Nat.le_refl _) hfails
      have hsplit : before ++ t :: n :: third :: more = (before ++ [t, n]) ++ third :: more := by
        simp
      refine ⟨before.length, third, by rwa [List.drop_left], by simp, ?_, ?_⟩
      · exact start_le_errorIn hscan hsplit hr hfound
      · obtain ⟨expected, found⟩ := u
        cases found <;> rfl
  refine ⟨hplace, fun hnone => ?_⟩
  cases hparse : parse source with
  | error e =>
    obtain ⟨i, third, hstarts, -⟩ := hplace e hparse
    cases (hnone i).symm.trans hstarts
  | ok p => exact ⟨p, rfl, ((parse_eq_ok hscan).mp hparse).statements hnone⟩

/-- The brackets of both sources are nested wrongly. In the first one a declaration that begins
behind them lacks its type, the second one has no declaration. -/
theorem declaration_of_error_example :
    (∃ source tokens e i third, source = "x = ) \x7d ] type A = \x7b b: \x7d" ∧
      Token.scan (blankDeclarations source.toList) = .ok tokens ∧
      parse source = .error e ∧ e.offset = 24 ∧ startsAlias (tokens.drop i) = true ∧
      tokens[i + 2]? = some third ∧ third.start ≤ e.offset) ∧
    ∃ source tokens p, source = "export export ) ( \x7b ; declare type A; type = 1 ]" ∧
      Token.scan (blankDeclarations source.toList) = .ok tokens ∧
      (∀ i, startsAlias (tokens.drop i) = false) ∧ parse source = .ok p ∧ p.length = 1 ∧
      ∀ s ∈ p, ∃ n, s = Statement.exported^[n] .other := by
  constructor
  · generalize hsource : "x = ) \x7d ] type A = \x7b b: \x7d" = source
    have hoffset : (match parse source with
        | .ok _ => none
        | .error e => some e.offset) = some 24 := by
      subst hsource
      decide +kernel
    have hwords : (Token.scan (blankDeclarations source.toList)).map List.length = .ok 12 := by
      subst hsource
      decide +kernel
    obtain ⟨tokens, hscan, -⟩ := map_eq_ok.mp hwords
    cases hparse : parse source with
    | ok p =>
      rw [hparse] at hoffset
      cases hoffset
    | error e =>
      rw [hparse] at hoffset
      obtain ⟨i, third, hstarts, hthird, hle, -⟩ := (declaration_of_error hscan).1 e hparse
      exact ⟨source, tokens, e, i, third, rfl, hscan, hparse, Option.some.inj hoffset, hstarts,
        hthird, hle⟩
  · generalize hsource : "export export ) ( \x7b ; declare type A; type = 1 ]" = source
    have hheads : (Token.scan (blankDeclarations source.toList)).map
        (fun tokens => tokens.tails.all fun us => !startsAlias us) = .ok true := by
      subst hsource
      decide +kernel
    have hlength : (parse source).map List.length = .ok 1 := by
      subst hsource
      decide +kernel
    obtain ⟨tokens, hscan, hall⟩ := map_eq_ok.mp hheads
    have hnone : ∀ i, startsAlias (tokens.drop i) = false := fun i => by
      simpa using List.all_eq_true.mp hall _ ((List.mem_tails _ _).mpr (List.drop_suffix i tokens))
    obtain ⟨p, hparse, hstatements⟩ := (declaration_of_error hscan).2 hnone
    rw [hparse] at hlength
    exact ⟨source, tokens, p, rfl, hscan, hnone, hparse, Except.ok.inj hlength, hstatements⟩

end Program

end AliasCheck
