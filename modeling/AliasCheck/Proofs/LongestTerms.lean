import AliasCheck.Proofs.CutTerms
import AliasCheck.Proofs.HiddenDeclarations

/-!
# Terms are as long as they can be

Nothing closes a term, so it is the longest beginning of the tokens that is one: in a list that ends
further on, the reader would have stopped at the same place (`Reads.longest`). An alias declaration
does not look at what follows its term, except that it takes a semicolon. Everything else there is
read as statements, on the same line or not.
-/

namespace AliasCheck

open Grammar

/-! ## The longest term -/

section

variable {ts used more rest r r' : List Token} {x y : TypeTerm}

theorem Reads.term_unique (h : Reads .term ts x r) (h' : Reads .term ts y r') :
    x = y ∧ r = r' := by
  have hread := (agrees_term ts.length ts (Nat.le_refl _) x r).mpr h
  rw [(agrees_term ts.length ts (Nat.le_refl _) y r').mpr h'] at hread
  cases hread
  exact ⟨rfl, rfl⟩

/-- What a term is read from is a term by itself. -/
theorem Reads.whole (h : Reads .term (used ++ r) x r) : Reads .term used x [] := by
  have hnone : ¬ LoneBar [] := fun ⟨_, hnil, _⟩ => by cases hnil
  obtain ⟨ws, hws, hread⟩ := h.cut (List.nil_append r).symm hnone nofun
  rwa [List.append_cancel_right hws]

/-- Nothing longer would have been a term. -/
theorem Reads.longest (h : Reads .term (used ++ (more ++ rest)) x (more ++ rest))
    (hmore : more ≠ []) : ¬ Reads .term (used ++ more) y [] := by
  intro hlonger
  by_cases hbar : LoneBar more
  · obtain ⟨t, rfl, ht⟩ := hbar
    obtain ⟨tokens, htokens, hlast⟩ := hlonger.endsWithoutBar
    rw [List.append_nil] at htokens
    subst htokens
    exact hlast t List.getLast?_concat ht
  · obtain ⟨ws, hws, hread⟩ := h.cut rfl hbar nofun
    rw [← List.append_assoc] at hws
    rw [← List.append_cancel_right hws] at hread
    exact hmore (hread.term_unique hlonger).2

end

/-! ## Declarations -/

theorem ReadsStatement.suffix {ts r : List Token} {s : Statement} (h : ReadsStatement ts s r) :
    r <:+ ts := by
  induction h with
  | exported _ _ _ ih => exact ih.trans (List.suffix_cons _ _)
  | hidden _ => exact (skipStatement_suffix ..).trans (List.suffix_cons _ _)
  | declares _ ha => exact (suffix_of_passes ha.consumed).trans (List.suffix_cons _ _)
  | other _ _ _ => exact skipStatement_suffix ..

theorem ReadsStatement.alias_suffix {ts r : List Token} {s : Statement} {a : Alias}
    (h : ReadsStatement ts s r) (ha : s.alias? = some a) :
    ∃ t us, t :: us <:+ ts ∧ startsAlias (t :: us) = true ∧ ReadsAlias us a r := by
  induction h with
  | exported _ _ _ ih =>
    obtain ⟨t, us, hsuffix, hstarts, hread⟩ := ih ha
    exact ⟨t, us, hsuffix.trans (List.suffix_cons _ _), hstarts, hread⟩
  | hidden _ => cases ha
  | declares ht hb =>
    cases ha
    exact ⟨_, _, List.suffix_rfl, ht, hb⟩
  | other _ _ _ => cases ha

/-- What stands behind an alias is the rest of the program. -/
theorem Runs.alias_suffix {ts : List Token} {p : Program} {a : Alias} (h : Runs ts p)
    (ha : a ∈ p.aliases) :
    ∃ t us r before s q, t :: us <:+ ts ∧ startsAlias (t :: us) = true ∧ ReadsAlias us a r ∧
      p = before ++ s :: q ∧ s.alias? = some a ∧ Runs r q := by
  induction h with
  | nil => cases ha
  | empty _ _ ih =>
    obtain ⟨t, us, r, before, s, q, hsuffix, hread⟩ := ih ha
    exact ⟨t, us, r, before, s, q, hsuffix.trans (List.suffix_cons _ _), hread⟩
  | @statement t ts r s p _ hs hp ih =>
    obtain ⟨s', hs', halias⟩ := List.mem_filterMap.mp ha
    rcases List.mem_cons.mp hs' with rfl | hlater
    · obtain ⟨u, us, hsuffix, hstarts, hread⟩ := hs.alias_suffix halias
      exact ⟨u, us, r, [], s', p, hsuffix, hstarts, hread, rfl, halias, hp⟩
    · obtain ⟨u, us, r', before, s'', q, hsuffix, hstarts, hread, rfl, hlast⟩ :=
        ih (List.mem_filterMap.mpr ⟨s', hlater, halias⟩)
      exact ⟨u, us, r', s :: before, s'', q, hsuffix.trans hs.suffix, hstarts, hread, rfl, hlast⟩

/-- The term of an alias is read from as many tokens as make a term: those that are used are one by
themselves, and with any more of the tokens that follow they are none. What follows, behind a
semicolon if one comes next, is read as the rest of the program, whatever it is. -/
theorem Program.alias_is_longest {source : String} {p : Program} {a : Alias}
    (hparse : Program.parse source = .ok p) (ha : a ∈ p.aliases) :
    ∃ tokens before t n params e used r,
      Token.scan (blankDeclarations source.toList) = .ok tokens ∧
      tokens = before ++ t :: n :: (params ++ e :: (used ++ r)) ∧
      t.isWord "type" = true ∧ n.text = a.name ∧ e.kind = .equals ∧
      Reads .typeParams (params ++ e :: (used ++ r)) a.params (e :: (used ++ r)) ∧
      term used.length used = .ok (a.body, []) ∧
      (∀ more rest x, r = more ++ rest → more ≠ [] →
        term (used ++ more).length (used ++ more) ≠ .ok (x, [])) ∧
      ∃ earlier s q, p = earlier ++ s :: q ∧ s.alias? = some a ∧
        Program.ofTokens (skip .semicolon r) = .ok q := by
  obtain ⟨tokens, hscan, -⟩ := bind_eq_ok.mp hparse
  have hruns := (parse_eq_ok hscan).mp hparse
  obtain ⟨t, us, r, earlier, s, q, hsuffix, hstarts, hread, hp, halias, hrest⟩ :=
    hruns.alias_suffix ha
  obtain ⟨before, rfl⟩ := hsuffix
  cases hread with
  | @mk n e ts us r params body hn hparams he hbody =>
    obtain ⟨names, rfl⟩ := hparams.suffix
    obtain ⟨used, rfl⟩ := hbody.suffix
    have hends := agrees_term used.length used (Nat.le_refl _) body []
    refine ⟨_, before, t, n, names, e, used, r, hscan, rfl, isWord_of_startsAlias hstarts, rfl, he,
      hparams, hends.mpr hbody.whole, ?_, earlier, s, q, hp, halias, ?_⟩
    · rintro more rest x rfl hmore hlonger
      exact hbody.longest hmore ((agrees_term _ _ (Nat.le_refl _) x []).mp hlonger)
    · exact (program_eq_ok (Nat.le_refl _)).mpr hrest

/-- The function type is not cut short, and the name behind it is the next statement. -/
theorem Program.alias_is_longest_example :
    ∃ source p a tokens before t n params e used r,
      source = "import b; export type A<T> = ?T[] | (T) => A.b c" ∧
      Program.parse source = .ok p ∧ a ∈ p.aliases ∧
      Token.scan (blankDeclarations source.toList) = .ok tokens ∧
      tokens = before ++ t :: n :: (params ++ e :: (used ++ r)) ∧
      t.isWord "type" = true ∧ n.text = a.name ∧ e.kind = .equals ∧
      Reads .typeParams (params ++ e :: (used ++ r)) a.params (e :: (used ++ r)) ∧
      term used.length used = .ok (a.body, []) ∧
      (∀ more rest x, r = more ++ rest → more ≠ [] →
        term (used ++ more).length (used ++ more) ≠ .ok (x, [])) ∧
      ∃ earlier s q, p = earlier ++ s :: q ∧ s.alias? = some a ∧
        Program.ofTokens (skip .semicolon r) = .ok q := by
  generalize hsource : "import b; export type A<T> = ?T[] | (T) => A.b c" = source
  have hnames : (Program.parse source).map (fun p => p.aliases.map Alias.name) = .ok ["A"] := by
    subst hsource
    decide +kernel
  obtain ⟨p, hparse, haliases⟩ := map_eq_ok.mp hnames
  obtain ⟨a, ha, -⟩ := List.mem_map.mp (haliases ▸ List.mem_singleton_self "A")
  obtain ⟨tokens, before, t, n, params, e, used, r, hall⟩ := Program.alias_is_longest hparse ha
  exact ⟨source, p, a, tokens, before, t, n, params, e, used, r, rfl, hparse, ha, hall⟩

/-- A declaration need not be closed. Here the term ends in front of a token on the same line, and
the program is read all the same. -/
theorem Program.not_closed : ¬ ∀ (source : String) (tokens : List Token) (p : Program),
    Token.scan (blankDeclarations source.toList) = .ok tokens →
    Program.parse source = .ok p →
    ∀ t n e us body r, EntersAlias tokens (t :: n :: e :: us) → e.kind = .equals →
      term us.length us = .ok (body, r) →
      r = [] ∨ startsWith .semicolon r = true ∨
        ∃ used v rest, us = used ++ v :: rest ∧ r = v :: rest ∧ ∀ u ∈ used,
          (Position.ofOffset source.toList u.start).line
            < (Position.ofOffset source.toList v.start).line := by
  intro h
  have htokens : (Token.scan (blankDeclarations "type A = string number".toList)).toOption
      = some [⟨.identifier, "type", 0⟩, ⟨.identifier, "A", 5⟩, ⟨.equals, "=", 7⟩,
        ⟨.identifier, "string", 9⟩, ⟨.identifier, "number", 16⟩] := by
    decide +kernel
  have hlength : (Program.parse "type A = string number").map List.length = .ok 2 := by
    decide +kernel
  obtain ⟨p, hparse, -⟩ := map_eq_ok.mp hlength
  cases hscan : Token.scan (blankDeclarations "type A = string number".toList) with
  | error e =>
    rw [hscan] at htokens
    cases htokens
  | ok tokens =>
    rw [hscan] at htokens
    cases htokens
    have hclosed := h _ _ p hscan hparse _ _ _ _ (.keyword .string) _
      ⟨.first (by decide) .here, by decide⟩ rfl rfl
    rcases hclosed with hnil | hsemicolon | ⟨used, v, rest, hus, hr, hlines⟩
    · cases hnil
    · cases hsemicolon
    · cases hr
      have hused : [⟨.identifier, "string", 9⟩] = used := List.append_cancel_right hus
      rw [← hused] at hlines
      exact absurd (hlines _ List.mem_cons_self) (by decide +kernel)

end AliasCheck
