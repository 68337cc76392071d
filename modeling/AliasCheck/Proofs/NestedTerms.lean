import AliasCheck.Proofs.MatchingBrackets
import AliasCheck.Proofs.Readers
import AliasCheck.Token.Scan

/-!
# The brackets of terms

In the tokens that a term takes all brackets nest, angle brackets among them; an arrow is a token of
its own and closes none. So a form that stands around a term finds its closing bracket where the
term ends or later: no term takes it away.

Whether a parenthesis begins a function type is looked up behind the parenthesis that closes it.
The reader goes there with one counter for parentheses, brackets and braces together, and asks
nothing but whether it is back at zero. Where these three nest, the counter is at zero for the first
time at the partner of the parenthesis.
-/

namespace AliasCheck
namespace Grammar

open AliasCheck.Bracket

variable {tokens rest : List Token} {i j pos bound : Nat} {o : Token} {kind : Token.Kind}

/-! ## What a term takes -/

/-- A term takes at least one token, brackets of all kinds nest in those that it takes, and of two
brackets that belong together it takes both or leaves both, whichever kinds count. -/
theorem term_nested {x : TypeTerm} (hbound : (tokens.drop pos).length ≤ bound)
    (h : term bound (tokens.drop pos) = .ok (x, rest)) :
    ∃ stop, pos < stop ∧ stop ≤ tokens.length ∧ rest = tokens.drop stop ∧
      Nested isAny (tokens.extract pos stop) ∧
      ∀ counts i j, Matches counts tokens i j → (pos ≤ i ∧ i < stop ↔ pos ≤ j ∧ j < stop) := by
  have hread := (agrees_term bound _ hbound x rest).mp h
  obtain ⟨used, hused, hlen, hopen⟩ : Passes isAny 1 [] (tokens.drop pos) rest := hread.consumed
  have hnested : Nested isAny used := nested_iff.mpr hopen
  have hlength := congrArg List.length hused
  rw [List.length_drop, List.length_append] at hlength
  have hfront : (tokens.take pos).length = pos := List.length_take_of_le (by omega)
  have htokens : tokens = tokens.take pos ++ (used ++ rest) := by
    rw [← hused, List.take_append_drop]
  refine ⟨pos + used.length, by omega, by omega, ?_, ?_, fun counts i j hmatch => ?_⟩
  · rw [← List.drop_drop, hused, List.drop_left]
  · rwa [List.extract_eq_take_drop, Nat.add_sub_cancel_left, hused, List.take_left]
  · rw [htokens] at hmatch
    have hcounts : Nested counts used := hnested.of_isAny
    have hwithin := hcounts.matches_within hmatch
    rwa [hfront] at hwithin

/-- The term inside the outer parentheses takes its brackets of all four kinds in pairs, and leaves
the parenthesis that was opened before it. -/
theorem term_nested_example : ∃ tokens x rest,
    Token.scan "(Array<\x7b| a: (?T[]) => B |\x7d>) => c".toList = .ok tokens ∧
      (tokens.drop 1).length ≤ tokens.length ∧
      term tokens.length (tokens.drop 1) = .ok (x, rest) ∧
      rest.map Token.text = [")", "=>", "c"] ∧
      ∃ stop, 1 < stop ∧ stop ≤ tokens.length ∧ rest = tokens.drop stop ∧
        Nested isAny (tokens.extract 1 stop) ∧
        ∀ counts i j, Matches counts tokens i j → (1 ≤ i ∧ i < stop ↔ 1 ≤ j ∧ j < stop) := by
  generalize hsource : "(Array<\x7b| a: (?T[]) => B |\x7d>) => c".toList = text
  have hleft : (Token.scan text).map
      (fun tokens => (term tokens.length (tokens.drop 1)).map fun read => read.2.map Token.text)
      = .ok (.ok [")", "=>", "c"]) := by
    subst hsource
    decide +kernel
  obtain ⟨tokens, hscan, hread⟩ := map_eq_ok.mp hleft
  obtain ⟨⟨x, rest⟩, hterm, hrest⟩ := map_eq_ok.mp hread
  have hbound : (tokens.drop 1).length ≤ tokens.length := by
    rw [List.length_drop]
    exact Nat.sub_le _ _
  exact ⟨tokens, x, rest, hscan, hbound, hterm, hrest, term_nested hbound hterm⟩

/-! ## Looking ahead for an arrow -/

theorem startsWith_drop :
    startsWith kind (tokens.drop i) = true ↔ ∃ t, tokens[i]? = some t ∧ t.kind = kind := by
  rw [← List.head?_drop]
  cases tokens.drop i <;> simp

/-- The look ahead ends behind the partner of the parenthesis. -/
theorem arrowAfterGroup_of_matches (h : Matches isCode tokens i j) (hi : tokens[i]? = some o)
    (ho : o.kind = .openParen) : (∃ c, tokens[j]? = some c ∧ c.kind = .closeParen) ∧
      arrowAfterGroup 0 (tokens.drop i) = startsWith .arrow (tokens.drop (j + 1)) := by
  obtain ⟨b, o', inner, c, after, hopens, hinner, hcloses, hstart, hend⟩ := h.exists_drop
  have hfirst : tokens[i]? = some o' := by rw [← List.head?_drop, hstart, List.head?_cons]
  obtain rfl : o = o' := Option.some.inj (hi.symm.trans hfirst)
  obtain rfl : b = .paren := by simpa [ho, Token.Kind.opens?] using hopens.opens.symm
  have hc : c.kind = .closeParen := by
    have hkind := hcloses.closes
    cases hc : c.kind <;> simp_all [Token.Kind.closes?]
  refine ⟨⟨c, ?_, hc⟩, ?_⟩
  · rw [← List.head?_drop, hend, List.head?_cons]
  · rw [hstart, ← List.tail_drop, hend, List.tail_cons]
    exact arrowAfterGroup_eq ho ⟨inner, rfl, Nat.zero_le _, hinner.balanced⟩ hc

/-- Where parentheses, brackets and braces nest, the look ahead from a parenthesis finds the one
parenthesis that closes it, and says whether an arrow is the next token. -/
theorem arrowAfterGroup_iff (hnested : Nested isCode tokens) (hi : tokens[i]? = some o)
    (ho : o.kind = .openParen) :
    ∃ j, (∀ k, Matches isCode tokens i k ↔ k = j) ∧
      (∃ c, tokens[j]? = some c ∧ c.kind = .closeParen) ∧
      (arrowAfterGroup 0 (tokens.drop i) = true ↔
        ∃ t, tokens[j + 1]? = some t ∧ t.kind = .arrow) := by
  have hopens : Opens isCode .paren o := ⟨rfl, by rw [ho]; rfl⟩
  obtain ⟨j, hpartner⟩ := hnested.exists_matches hi hopens
  obtain ⟨hclose, harrow⟩ := arrowAfterGroup_of_matches ((hpartner j).mpr rfl) hi ho
  exact ⟨j, hpartner, hclose, by rw [harrow, startsWith_drop]⟩

/-- Brackets of other kinds stand around and inside the group, and an arrow follows it. -/
theorem arrowAfterGroup_iff_example : ∃ tokens o,
    Token.scan "[((a, \x7b b: (c) \x7d) => d)]".toList = .ok tokens ∧ Nested isCode tokens ∧
      tokens[2]? = some o ∧ o.kind = .openParen ∧
      ∃ j, (∀ k, Matches isCode tokens 2 k ↔ k = j) ∧
        (∃ c, tokens[j]? = some c ∧ c.kind = .closeParen) ∧
        (arrowAfterGroup 0 (tokens.drop 2) = true ↔
          ∃ t, tokens[j + 1]? = some t ∧ t.kind = .arrow) := by
  generalize hsource : "[((a, \x7b b: (c) \x7d) => d)]".toList = text
  have hends : (Token.scan text).map
      (fun tokens => (openAfter isCode [] tokens, tokens[2]?.map Token.kind))
      = .ok (some [], some .openParen) := by
    subst hsource
    decide +kernel
  obtain ⟨tokens, hscan, hread⟩ := map_eq_ok.mp hends
  obtain ⟨hopen, hkind⟩ := Prod.mk.inj hread
  obtain ⟨o, hi, ho⟩ := Option.map_eq_some_iff.mp hkind
  have hnested : Nested isCode tokens := nested_iff.mpr hopen
  exact ⟨tokens, o, hscan, hnested, hi, ho, arrowAfterGroup_iff hnested hi ho⟩

end Grammar
end AliasCheck
