import AliasCheck.Proofs.AliasDiscovery

/-!
# Hidden declarations

A declaration behind `opaque` or `declare` is dropped where the word begins a statement: the token
behind the word is passed over whatever it is, so no statement begins there. Where the word stands
in code that is being skipped it is a token like any other. If nothing has closed the code by then,
it ends in front of the alias that the word should have hidden.

`Begins` follows the readers of programs and statements and says where a statement is read. All that
a program declares, and all that can be wrong with it, comes from the places where such a statement
is an alias declaration.
-/

namespace AliasCheck

open Grammar

/-! ## Where statements are read -/

/-- While the statement `ts` is read, a statement is read at `us`: the whole of it, or what stands
behind an `export`. -/
inductive StatementAt : (ts us : List Token) → Prop where
  | here {ts : List Token} : StatementAt ts ts
  | exported {t : Token} {ts us : List Token} (ht : t.isWord "export" = true) (hts : ts ≠ [])
      (h : StatementAt ts us) : StatementAt (t :: ts) us

/-- While the program `ts` is read, a statement is read at `us`. -/
inductive Begins : (ts us : List Token) → Prop where
  | empty {t : Token} {ts us : List Token} (ht : t.kind = .semicolon) (h : Begins ts us) :
      Begins (t :: ts) us
  | first {t : Token} {ts us : List Token} (ht : t.kind ≠ .semicolon)
      (h : StatementAt (t :: ts) us) : Begins (t :: ts) us
  | later {t : Token} {ts r us : List Token} {s : Statement} (ht : t.kind ≠ .semicolon)
      (hs : ReadsStatement (t :: ts) s r) (h : Begins r us) : Begins (t :: ts) us

/-- While the program `ts` is read, an alias declaration is read at `us`. -/
def EntersAlias (ts us : List Token) : Prop := Begins ts us ∧ startsAlias us = true

section Places

variable {t w : Token} {ts us r r' : List Token} {s s' : Statement}

theorem StatementAt.length_le (h : StatementAt ts us) : us.length ≤ ts.length := by
  induction h with
  | here => exact Nat.le_refl _
  | exported _ _ _ ih => exact Nat.le_succ_of_le ih

theorem StatementAt.ne_nil (h : StatementAt ts us) (hts : ts ≠ []) : us ≠ [] := by
  induction h with
  | here => exact hts
  | exported _ hne _ ih => exact ih hne

theorem ReadsStatement.unique (h : ReadsStatement ts s r) (h' : ReadsStatement ts s' r') :
    r = r' := by
  have hne : ts ≠ [] := by
    rintro rfl
    exact absurd h.length_lt (Nat.not_lt_zero _)
  have hread := (statement_eq_ok hne (Nat.le_refl _)).mpr h
  rw [(statement_eq_ok hne (Nat.le_refl _)).mpr h'] at hread
  cases hread
  rfl

/-- Behind an `export` a statement is read. -/
theorem ReadsStatement.of_export (ht : t.isWord "export" = true) (hts : ts ≠ [])
    (h : ReadsStatement (t :: ts) s r) :
    ∃ inner, s = .exported inner ∧ ReadsStatement ts inner r := by
  cases h with
  | exported _ _ hs => exact ⟨_, rfl, hs⟩
  | hidden hword =>
    have hno : (t.isWord "opaque" || t.isWord "declare") = false := by
      rw [Token.isWord_ne ht (by decide), Token.isWord_ne ht (by decide), Bool.or_false]
    rw [hno] at hword
    cases hword
  | declares halias _ =>
    have hno := Token.isWord_ne (isWord_of_startsAlias halias) (by decide : "type" ≠ "export")
    rw [hno] at ht
    cases ht
  | other hexport _ _ =>
    rw [ht, Bool.true_and] at hexport
    exact absurd (by simpa using hexport) hts

/-- A statement and the one behind its `export` end at the same place. -/
theorem StatementAt.reads (h : StatementAt ts us) (hs : ReadsStatement ts s r) :
    ∃ s', ReadsStatement us s' r := by
  induction h generalizing s with
  | here => exact ⟨s, hs⟩
  | exported ht hts _ ih =>
    obtain ⟨inner, -, hinner⟩ := hs.of_export ht hts
    exact ih hinner

theorem Begins.length_le (h : Begins ts us) : us.length ≤ ts.length := by
  induction h with
  | empty _ _ ih => exact Nat.le_succ_of_le ih
  | first _ h => exact h.length_le
  | later _ hs _ ih => exact Nat.le_trans ih (Nat.le_of_lt hs.length_lt)

theorem Begins.ne_nil (h : Begins ts us) : us ≠ [] := by
  induction h with
  | empty _ _ ih => exact ih
  | first _ h => exact h.ne_nil (List.cons_ne_nil _ _)
  | later _ _ _ ih => exact ih

theorem StatementAt.not_behind (h : StatementAt ts (w :: us)) (hw : w.isWord "export" = false) :
    ¬ StatementAt ts us := by
  generalize hplace : w :: us = place at h
  induction h with
  | here =>
    subst hplace
    intro hbehind
    cases hbehind with
    | exported hexport _ _ =>
      rw [hw] at hexport
      cases hexport
  | @exported t ts _ _ _ hplaceAt ih =>
    subst hplace
    intro hbehind
    have hlen := hplaceAt.length_le
    cases hbehind with
    | here =>
      simp only [List.length_cons] at hlen
      omega
    | exported _ _ hbehind => exact ih rfl hbehind

/-- No statement is read behind a word that begins a statement and hides a declaration. -/
theorem Begins.not_behind (h : Begins ts (w :: us))
    (hw : (w.isWord "opaque" || w.isWord "declare") = true) : ¬ Begins ts us := by
  have hexport : w.isWord "export" = false := by
    rcases Bool.or_eq_true_iff.mp hw with hword | hword <;> exact Token.isWord_ne hword (by decide)
  generalize hplace : w :: us = place at h
  induction h with
  | empty ht _ ih =>
    intro hbehind
    cases hbehind with
    | empty _ hbehind => exact ih hplace hbehind
    | first hne _ => exact hne ht
    | later hne _ _ => exact hne ht
  | first ht hfirst =>
    subst hplace
    intro hbehind
    cases hbehind with
    | empty hsemicolon _ => exact ht hsemicolon
    | first _ hbehind => exact hfirst.not_behind hexport hbehind
    | later _ hs hbehind =>
      -- The statement ends behind the token that follows the word.
      obtain ⟨s', hread⟩ := hfirst.reads hs
      have hr := hread.unique (.hidden hw)
      have hlen := hbehind.length_le
      rw [hr] at hlen
      cases us with
      | nil => exact hbehind.ne_nil rfl
      | cons u us =>
        have hskip := skipStatement_first_length u us
        rw [List.length_cons] at hlen
        omega
  | later ht hs hlater ih =>
    -- The word stands behind the first statement, and no statement begins inside another but behind
    -- an `export`.
    subst hplace
    intro hbehind
    have hlen := hlater.length_le
    rw [List.length_cons] at hlen
    cases hbehind with
    | empty hsemicolon _ => exact ht hsemicolon
    | first _ hfirst =>
      obtain ⟨s', hread⟩ := hfirst.reads hs
      have hlt := hread.length_lt
      omega
    | later _ hs' hbehind =>
      rw [← hs.unique hs'] at hbehind
      exact ih rfl hbehind

end Places

/-! ## What alias declarations are good for -/

section Readers

variable {ts r : List Token}

theorem ReadsStatement.alias_at {s : Statement} {a : Alias} (h : ReadsStatement ts s r)
    (ha : s.alias? = some a) :
    ∃ t us r', StatementAt ts (t :: us) ∧ startsAlias (t :: us) = true ∧ ReadsAlias us a r' := by
  induction h with
  | exported ht hts _ ih =>
    obtain ⟨u, us, r', hat, hstarts, hread⟩ := ih ha
    exact ⟨u, us, r', .exported ht hts hat, hstarts, hread⟩
  | hidden _ => cases ha
  | @declares t ts r b ht hb =>
    cases ha
    exact ⟨t, ts, r, .here, ht, hb⟩
  | other _ _ _ => cases ha

/-- Every alias of a program is read at a place where alias declarations are read. -/
theorem Runs.alias_at {p : Program} (h : Runs ts p) {a : Alias} (ha : a ∈ p.aliases) :
    ∃ t us r, EntersAlias ts (t :: us) ∧ ReadsAlias us a r := by
  induction h with
  | nil => cases ha
  | empty ht _ ih =>
    obtain ⟨u, us, r, ⟨hbegins, hstarts⟩, hread⟩ := ih ha
    exact ⟨u, us, r, ⟨.empty ht hbegins, hstarts⟩, hread⟩
  | @statement t ts r s p ht hs _ ih =>
    obtain ⟨s', hs', halias⟩ := List.mem_filterMap.mp ha
    rcases List.mem_cons.mp hs' with rfl | hlater
    · obtain ⟨u, us, r', hat, hstarts, hread⟩ := hs.alias_at halias
      exact ⟨u, us, r', ⟨.first ht hat, hstarts⟩, hread⟩
    · obtain ⟨u, us, r', ⟨hbegins, hstarts⟩, hread⟩ :=
        ih (List.mem_filterMap.mpr ⟨s', hlater, halias⟩)
      exact ⟨u, us, r', ⟨.later ht hs hbegins, hstarts⟩, hread⟩

theorem statement_eq_error {bound : Nat} {e : Unexpected} (h : statement bound ts = .error e) :
    ∃ t us, StatementAt ts (t :: us) ∧ startsAlias (t :: us) = true ∧
      declaration bound us = .error e := by
  induction ts with
  | nil => cases h
  | cons t ts ih =>
    rw [statement] at h
    split at h
    · rename_i hexport
      rw [Bool.and_eq_true] at hexport
      rcases bind_eq_error h with hinner | ⟨_, _, hdone⟩
      · obtain ⟨u, us, hat, hstarts, hfails⟩ := ih hinner
        exact ⟨u, us, .exported hexport.1 (by simpa using hexport.2) hat, hstarts, hfails⟩
      · cases hdone
    · split at h
      · cases h
      · split at h
        · rename_i hstarts
          rcases bind_eq_error h with hfails | ⟨_, _, hdone⟩
          · exact ⟨t, ts, .here, hstarts, hfails⟩
          · cases hdone
        · cases h

/-- Whatever is wrong with a program is wrong with an alias declaration. -/
theorem program_eq_error {bound : Nat} {e : Unexpected} (hts : ts.length ≤ bound)
    (h : program bound ts = .error e) :
    ∃ t us n, EntersAlias ts (t :: us) ∧ us.length < n ∧ declaration n us = .error e := by
  induction bound generalizing ts with
  | zero => cases h
  | succ bound ih =>
    cases ts with
    | nil => cases h
    | cons t ts =>
      rw [program] at h
      have hshorter := Nat.le_of_succ_le_succ hts
      split at h
      · rename_i ht
        obtain ⟨u, us, n, ⟨hbegins, hstarts⟩, hn, hfails⟩ := ih hshorter h
        exact ⟨u, us, n, ⟨.empty ht hbegins, hstarts⟩, hn, hfails⟩
      · rename_i ht
        rcases bind_eq_error h with hfirst | ⟨⟨s, r⟩, hs, hmore⟩
        · obtain ⟨u, us, hat, hstarts, hfails⟩ := statement_eq_error hfirst
          have hlen := hat.length_le
          rw [List.length_cons] at hlen
          exact ⟨u, us, bound + 1, ⟨.first ht hat, hstarts⟩, by omega, hfails⟩
        · have hread := (statement_eq_ok (List.cons_ne_nil t ts) hts).mp hs
          have hlen := hread.length_lt
          rw [List.length_cons] at hlen hts
          rcases bind_eq_error hmore with hlater | ⟨_, _, hdone⟩
          · obtain ⟨u, us, n, ⟨hbegins, hstarts⟩, hn, hfails⟩ := ih (by omega) hlater
            exact ⟨u, us, n, ⟨.later ht hread hbegins, hstarts⟩, hn, hfails⟩
          · cases hdone

end Readers

/-! ## Sources -/

/-- A declaration behind a word that begins a statement and hides it is passed over: no alias is
read there. All aliases of a source and all its errors come from the places where aliases are read,
so a declaration that is passed over is neither an alias nor an error. -/
theorem Program.hidden_of_begins {source : String} {tokens : List Token}
    (hscan : Token.scan (blankDeclarations source.toList) = .ok tokens) :
    (∀ w us, (w.isWord "opaque" || w.isWord "declare") = true → Begins tokens (w :: us) →
      ¬ EntersAlias tokens us) ∧
    (∀ p, Program.parse source = .ok p → ∀ a ∈ p.aliases,
      ∃ t us r, EntersAlias tokens (t :: us) ∧ ReadsAlias us a r) ∧
    (∀ e, Program.parse source = .error e →
      ∃ t us n u, EntersAlias tokens (t :: us) ∧ us.length < n ∧ declaration n us = .error u ∧
        e = Program.errorIn (blankDeclarations source.toList) u) := by
  refine ⟨fun w us hw hbegins henters => hbegins.not_behind hw henters.1, ?_, ?_⟩
  · intro p hparse a ha
    exact ((parse_eq_ok hscan).mp hparse).alias_at ha
  · intro e hparse
    unfold Program.parse at hparse
    dsimp only at hparse
    rw [hscan] at hparse
    have hfails : (Program.ofTokens tokens).mapError
        (Program.errorIn (blankDeclarations source.toList)) = .error e := hparse
    cases hprogram : Program.ofTokens tokens with
    | ok p =>
      rw [hprogram] at hfails
      cases hfails
    | error u =>
      rw [hprogram] at hfails
      cases hfails
      obtain ⟨t, us, n, henters, hn, hdeclaration⟩ := program_eq_error (Nat.le_refl _) hprogram
      exact ⟨t, us, n, u, henters, hn, hdeclaration, rfl⟩

/-- The declarations behind the two words of this source are passed over. -/
theorem Program.hidden_of_begins_example :
    ∃ source tokens program,
      source = "opaque type A = string; type B = number; declare type C = ?" ∧
      Token.scan (blankDeclarations source.toList) = .ok tokens ∧
      Program.parse source = .ok program ∧ program.aliases.map Alias.name = ["B"] ∧
      (∀ w us, (w.isWord "opaque" || w.isWord "declare") = true → Begins tokens (w :: us) →
        ¬ EntersAlias tokens us) ∧
      ∀ a ∈ program.aliases, ∃ t us r, EntersAlias tokens (t :: us) ∧ ReadsAlias us a r := by
  generalize hsource : "opaque type A = string; type B = number; declare type C = ?" = source
  have hnames : (Program.parse source).map (fun p => p.aliases.map Alias.name) = .ok ["B"] := by
    subst hsource
    decide +kernel
  obtain ⟨program, hparse, haliases⟩ := map_eq_ok.mp hnames
  obtain ⟨tokens, hscan, -⟩ := bind_eq_ok.mp hparse
  obtain ⟨hhidden, hread, -⟩ := Program.hidden_of_begins hscan
  exact ⟨source, tokens, program, rfl, hscan, hparse, haliases, hhidden, hread program hparse⟩

/-- A word that does not begin a statement hides nothing. Here the import, which no semicolon ends,
goes on up to the alias behind the word. -/
theorem Program.not_hidden : ¬ ∀ (source : String) (tokens : List Token),
    Token.scan (blankDeclarations source.toList) = .ok tokens →
    ∀ before w us, tokens = before ++ w :: us →
      (w.isWord "opaque" || w.isWord "declare") = true → ¬ EntersAlias tokens us := by
  intro h
  have htokens : (Token.scan (blankDeclarations
      "import a from './a'\nopaque type T = string".toList)).toOption
      = some [⟨.identifier, "import", 0⟩, ⟨.identifier, "a", 7⟩, ⟨.identifier, "from", 9⟩,
        ⟨.string, "'./a'", 14⟩, ⟨.identifier, "opaque", 20⟩, ⟨.identifier, "type", 27⟩,
        ⟨.identifier, "T", 32⟩, ⟨.equals, "=", 34⟩, ⟨.identifier, "string", 36⟩] := by
    decide +kernel
  cases hscan : Token.scan (blankDeclarations
      "import a from './a'\nopaque type T = string".toList) with
  | error e =>
    rw [hscan] at htokens
    cases htokens
  | ok tokens =>
    rw [hscan] at htokens
    cases htokens
    refine h _ _ hscan [_, _, _, _] _ _ rfl (by decide) ⟨?_, by decide⟩
    exact .later (by decide) (.other (by decide) (by decide) (by decide)) (.first (by decide) .here)

end AliasCheck
