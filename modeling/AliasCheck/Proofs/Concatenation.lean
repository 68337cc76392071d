import AliasCheck.Proofs.RegistryRoundTrip
import AliasCheck.Proofs.Scanning
import AliasCheck.Proofs.ShiftedPrograms

/-!
# Sources one behind the other

A line that holds nothing but a semicolon keeps two sources apart: what is read from both together
is what is read from the first, with everything from the second entered after it. Blanking, scanning
and reading are treated in the modules before this one; here they are put together.
-/

namespace AliasCheck

open Grammar AliasCheck.Bracket

theorem parse_eq_ok_iff {source : String} {p : Program} :
    Program.parse source = .ok p ↔
      ∃ tokens, Token.scan (blankDeclarations source.toList) = .ok tokens ∧ Runs tokens p := by
  constructor
  · intro h
    obtain ⟨tokens, hscan, -⟩ := bind_eq_ok.mp h
    exact ⟨tokens, hscan, (parse_eq_ok hscan).mp h⟩
  · rintro ⟨tokens, hscan, hruns⟩
    exact (parse_eq_ok hscan).mpr hruns

theorem blankDeclarations_append (first second : String) :
    blankDeclarations (first ++ "\n;\n" ++ second).toList
      = blankDeclarations first.toList
        ++ '\n' :: ';' :: '\n' :: blankDeclarations second.toList := by
  have hsecond := Blanking.blank_append false [';'] second.toList
  have hfirst := Blanking.blank_append false first.toList (';' :: '\n' :: second.toList)
  rw [List.singleton_append] at hsecond
  rw [hsecond] at hfirst
  rw [String.toList_append, String.toList_append, List.append_assoc]
  exact hfirst

namespace Program

/-- The program of two sources declares what the two declare. -/
theorem parse_append {first second : String} {p q : Program} {tokens : List Token}
    (hfirst : parse first = .ok p) (hsecond : parse second = .ok q)
    (hscan : Token.scan (blankDeclarations first.toList) = .ok tokens)
    (hnested : Balanced isCode tokens) :
    ∃ both, parse (first ++ "\n;\n" ++ second) = .ok both ∧
      both.declarations = p.declarations ++ q.declarations := by
  obtain ⟨others, hothers, hq⟩ := parse_eq_ok_iff.mp hsecond
  have hp := (parse_eq_ok hscan).mp hfirst
  have htokens := Token.scan_append hscan hothers
  -- The tokens of the second source stand at other offsets, and behind a semicolon.
  have hmoved :
      Runs (others.map (Token.moveBy (byteLength (blankDeclarations first.toList) + 3))) q :=
    hq.map (fun _ => rfl) fun _ => rfl
  obtain ⟨both, hboth, hdeclared⟩ := hp.shift (.continued
    ⟨.semicolon, ";", byteLength (blankDeclarations first.toList) + 1⟩ rfl _) (.inr hnested) hmoved
  rw [Shift.apply_continued] at hboth
  refine ⟨both, parse_eq_ok_iff.mpr ⟨_, ?_, hboth⟩, hdeclared⟩
  rw [blankDeclarations_append, htokens]

end Program

namespace Registry

theorem ofProgram_append {both p q : Program}
    (h : both.declarations = p.declarations ++ q.declarations) :
    ofProgram both = Table.merge (ofProgram p) (ofProgram q) := by
  have hentries : ∀ p : Program, ofProgram p
      = Table.merge [] (p.declarations.map fun a => (a.name, a.body.toSchema)) :=
    ofProgram_eq_merge
  have hempty : (Table.names ([] : Registry)).Nodup := .nil
  have hmerge := Table.merge_merge (ofProgram p) hempty
    (q.declarations.map fun a => (a.name, a.body.toSchema))
  rw [← hentries q] at hmerge
  rw [hmerge, hentries both, h, List.map_append, Table.merge, List.foldl_append, hentries p]
  rfl

/-- The registry of two sources with a semicolon on a line between them is that of the first, into
which the entries of the second have been entered in order. -/
theorem ofSource_append {first second : String} {r s : Registry} {tokens : List Token}
    (hfirst : ofSource first = .ok r) (hsecond : ofSource second = .ok s)
    (hscan : Token.scan (blankDeclarations first.toList) = .ok tokens)
    (hnested : Balanced isCode tokens) :
    ofSource (first ++ "\n;\n" ++ second) = .ok (Table.merge r s) := by
  obtain ⟨p, hp, rfl⟩ := map_eq_ok.mp hfirst
  obtain ⟨q, hq, rfl⟩ := map_eq_ok.mp hsecond
  obtain ⟨both, hboth, hdeclared⟩ := Program.parse_append hp hq hscan hnested
  exact map_eq_ok.mpr ⟨both, hboth, ofProgram_append hdeclared⟩

/-- The first source ends with an `export`, which does not reach over to the second one, and the
second begins with a slash, which does not become a division. -/
theorem ofSource_append_example :
    ∃ r s tokens, ofSource "type A = 1; type B = A\nexport" = .ok r ∧
      ofSource "/a\"b/; type B = C; type C = ?A" = .ok s ∧
      Token.scan (blankDeclarations "type A = 1; type B = A\nexport".toList) = .ok tokens ∧
      Balanced isCode tokens ∧ Table.names (Table.merge r s) = ["A", "B", "C"] ∧
      ofSource ("type A = 1; type B = A\nexport" ++ "\n;\n" ++ "/a\"b/; type B = C; type C = ?A")
        = .ok (Table.merge r s) := by
  have hfirst : ofSource "type A = 1; type B = A\nexport"
      = .ok [("A", .value "NumberLiteral"), ("B", .value "A")] := by
    decide +kernel
  have hsecond : ofSource "/a\"b/; type B = C; type C = ?A"
      = .ok [("B", .value "C"), ("C", (Schema.value "A").orNull)] := by
    decide +kernel
  have hopen : (Token.scan (blankDeclarations "type A = 1; type B = A\nexport".toList)).map
      (openAfter isCode []) = .ok (some []) := by
    decide +kernel
  obtain ⟨tokens, hscan, hnested⟩ := map_eq_ok.mp hopen
  exact ⟨_, _, tokens, hfirst, hsecond, hscan, hnested, rfl,
    ofSource_append hfirst hsecond hscan hnested⟩

end Registry

end AliasCheck
