import AliasCheck.Proofs.Shift

/-!
# Programs one behind the other

When a semicolon and further code are put behind a program, its statements stay what they are and
the statements of the further code are added to them. The one exception is an `export` at the very
end, which gets the semicolon as its statement. That needs nested brackets, since a bracket left
open would take the further code with it.
-/

namespace AliasCheck

open Grammar AliasCheck.Bracket

namespace Shift

variable (m : Shift)

theorem isWord_move (word : String) (t : Token) : (m.move t).isWord word = t.isWord word := by
  unfold Token.isWord
  rw [m.kind_move, m.text_move]

theorem isWord_behind {t : Token} {r : List Token} (h : m.behind = t :: r) (word : String) :
    t.isWord word = false := by
  rcases m.behind_eq with hnil | hsemicolon
  · rw [hnil] at h
    cases h
  · rw [h, startsWith_cons, beq_iff_eq] at hsemicolon
    rw [Token.isWord, hsemicolon]
    rfl

theorem startsAlias_cons (t : Token) (us : List Token) :
    startsAlias (t :: us) = (t.isWord "type" && startsWith .identifier us &&
      (startsWith .equals us.tail || startsWith .openAngle us.tail)) := by
  match us with
  | [] => simp [startsAlias]
  | [_] => simp [startsAlias]
  | _ :: _ :: _ => rfl

theorem startsAlias_apply (ts : List Token) : startsAlias (m.apply ts) = startsAlias ts := by
  cases ts with
  | nil =>
    rw [apply_nil]
    cases h : m.behind with
    | nil => rfl
    | cons t r =>
      rw [startsAlias_cons, m.isWord_behind h]
      rfl
  | cons t us =>
    rw [apply_cons, startsAlias_cons, startsAlias_cons, m.isWord_move,
      m.startsWith_apply (by decide)]
    cases us with
    | nil => simp
    | cons n us =>
      rw [apply_cons, List.tail_cons, List.tail_cons, m.startsWith_apply (by decide),
        m.startsWith_apply (by decide)]

theorem startsStatement_apply (ts : List Token) :
    startsStatement (m.apply ts) = startsStatement ts := by
  cases ts with
  | nil =>
    rw [apply_nil]
    cases h : m.behind with
    | nil => rfl
    | cons t r =>
      have halias := m.startsAlias_apply []
      rw [apply_nil, h] at halias
      rw [startsStatement, halias, m.isWord_behind h, m.isWord_behind h]
      rfl
  | cons t ts =>
    have halias := m.startsAlias_apply (t :: ts)
    rw [apply_cons] at halias ⊢
    rw [startsStatement, startsStatement, halias, m.isWord_move, m.isWord_move]

/-! ## What is left behind a statement -/

/-- After the shift, `r'` is left where `r` was left before. A statement that had come to the end
may have taken the semicolon. -/
def Follows (r r' : List Token) : Prop := r' = m.apply r ∨ r = [] ∧ r' = m.behind.tail

theorem skipStatement_apply_of_behind (h : m.behind = []) (first : Bool) (depth : Nat)
    (ts : List Token) :
    skipStatement first depth (m.apply ts) = m.apply (skipStatement first depth ts) := by
  induction ts generalizing first depth with
  | nil =>
    rw [apply_nil, h]
    exact h.symm
  | cons t ts ih =>
    have hstart := m.startsStatement_apply (t :: ts)
    rw [apply_cons] at hstart ⊢
    rw [skipStatement, skipStatement, hstart, m.kind_move]
    split
    · rfl
    · split
      all_goals first
        | exact ih false _
        | split
          · rfl
          · exact ih false _

theorem follows_skipStatement (first : Bool) {stack : List Bracket} {ts : List Token}
    (h : openAfter isCode stack ts = some []) :
    m.Follows (skipStatement first stack.length ts)
      (skipStatement first stack.length (m.apply ts)) := by
  rcases m.behind_eq with hnil | hsemicolon
  · exact .inl (m.skipStatement_apply_of_behind hnil first stack.length ts)
  · induction ts generalizing first stack with
    | nil =>
      cases h
      obtain ⟨t, r, hbehind, ht⟩ := startsWith_eq_true.mp hsemicolon
      have hstart := m.startsStatement_apply []
      rw [apply_nil, hbehind] at hstart ⊢
      refine .inr ⟨rfl, ?_⟩
      have hstop : (!first && ([] : List Bracket).length == 0 && startsStatement (t :: r))
          = false := by
        rw [hstart]
        exact Bool.and_false _
      rw [hbehind, skipStatement, hstop, ht]
      rfl
    | cons t ts ih =>
      rw [openAfter_cons] at h
      obtain ⟨next, hstep, hrest⟩ := Option.bind_eq_some_iff.mp h
      have hstep' : step isCode stack (m.move t) = some next := by
        rw [step, m.kind_move]
        exact hstep
      have hstart := m.startsStatement_apply (t :: ts)
      rw [apply_cons] at hstart ⊢
      cases hstop : !first && stack.length == 0 && startsStatement (t :: ts) with
      | true =>
        rw [skipStatement, skipStatement, hstart, hstop, if_pos rfl, if_pos rfl]
        exact .inl rfl
      | false =>
        rw [skipStatement_cons hstep hstop, skipStatement_cons hstep' (by rw [hstart, hstop])]
        have hends : endsStatement stack.length (m.move t) = endsStatement stack.length t := by
          rw [endsStatement, m.kind_move, endsStatement]
        rw [hends]
        split
        · exact .inl rfl
        · exact ih false hrest

theorem follows_skip_semicolon (ts : List Token) :
    m.Follows (skip .semicolon ts) (skip .semicolon (m.apply ts)) := by
  cases ts with
  | nil =>
    refine .inr ⟨rfl, ?_⟩
    rw [apply_nil]
    rcases m.behind_eq with h | h
    · rw [h]
      rfl
    · obtain ⟨t, r, hbehind, ht⟩ := startsWith_eq_true.mp h
      rw [hbehind, skip, eat?_cons ht]
      rfl
  | cons t ts =>
    refine .inl ?_
    rw [apply_cons, skip, skip, eat?, eat?, startsWith_cons, startsWith_cons, m.kind_move]
    cases t.kind == .semicolon <;> rfl

end Shift

/-! ## Statements and programs -/

theorem ReadsAlias.shift {ts r : List Token} {a : Alias} (m : Shift) (h : ReadsAlias ts a r) :
    ∃ r', m.Follows r r' ∧ ReadsAlias (m.apply ts) a r' := by
  cases h with
  | @mk n e us vs zs params body hname hparams he hbody =>
    have hread := ReadsAlias.mk ((m.kind_move n).trans hname) (hparams.shift m)
      ((m.kind_move e).trans he) (hbody.shift m)
    rw [m.text_move] at hread
    exact ⟨_, m.follows_skip_semicolon zs, hread⟩

/-- A statement stays what it is, or declares nothing before and after. -/
theorem ReadsStatement.shift {ts r : List Token} {s : Statement} (m : Shift)
    (h : ReadsStatement ts s r) (hts : m.behind = [] ∨ Balanced isCode ts) :
    ∃ s' r', m.Follows r r' ∧ ReadsStatement (m.apply ts) s' r' ∧
      (s' = s ∨ s.alias? = none ∧ s'.alias? = none) := by
  have hskip : ∀ {us : List Token}, m.behind = [] ∨ Balanced isCode us →
      m.Follows (skipStatement true 0 us) (skipStatement true 0 (m.apply us)) := by
    rintro us (hnil | hus)
    · exact .inl (m.skipStatement_apply_of_behind hnil true 0 us)
    · exact m.follows_skipStatement true hus
  have htail : ∀ {t : Token} {us : List Token} {word : String}, t.isWord word = true →
      m.behind = [] ∨ Balanced isCode (t :: us) → m.behind = [] ∨ Balanced isCode us :=
    fun hword => Or.imp_right fun h => h.of_cons (balanced_word hword)
  induction h with
  | @exported t ts r s ht hne hs ih =>
    obtain ⟨s', r', hr, hread, hsame⟩ := ih (htail ht hts)
    refine ⟨.exported s', r', hr, .exported (by rw [m.isWord_move, ht]) ?_ hread, ?_⟩
    · cases ts with
      | nil => exact absurd rfl hne
      | cons u us => exact List.cons_ne_nil _ _
    · rcases hsame with rfl | hsame
      · exact .inl rfl
      · exact .inr hsame
  | @hidden t ts ht =>
    have hts : m.behind = [] ∨ Balanced isCode ts := by
      rcases Bool.or_eq_true_iff.mp ht with h | h <;> exact htail h hts
    exact ⟨.other, _, hskip hts, .hidden (by rw [m.isWord_move, m.isWord_move, ht]), .inl rfl⟩
  | @declares t ts r a ht ha =>
    obtain ⟨r', hr, hread⟩ := ha.shift m
    have halias := (m.startsAlias_apply (t :: ts)).trans ht
    exact ⟨.declares a, r', hr, .declares halias hread, .inl rfl⟩
  | @other t ts hexport hhidden halias =>
    have hfollows := hskip hts
    have halias' : startsAlias (m.move t :: m.apply ts) = false :=
      (m.startsAlias_apply (t :: ts)).trans halias
    cases hlast : (m.move t).isWord "export" && !(m.apply ts).isEmpty with
    | false =>
      exact ⟨.other, _, hfollows,
        .other hlast (by rw [m.isWord_move, m.isWord_move, hhidden]) halias', .inl rfl⟩
    | true =>
      -- The last token was an `export`, which the semicolon makes a statement of its own.
      rw [Bool.and_eq_true, m.isWord_move] at hlast
      have hempty : ts = [] := by simpa [hlast.1] using hexport
      subst hempty
      rw [Shift.apply_nil] at hlast
      have hrest : skipStatement true 0 [t] = [] :=
        List.length_eq_zero_iff.mp (Nat.le_zero.mp (skipStatement_first_length t []))
      rcases m.behind_eq with hnil | hsemicolon
      · simp [hnil] at hlast
      · obtain ⟨e, us, hbehind, he⟩ := startsWith_eq_true.mp hsemicolon
        have halias := m.startsAlias_apply []
        rw [Shift.apply_nil, hbehind] at halias
        have hinner : ReadsStatement (e :: us) .other us := by
          have hread : ReadsStatement (e :: us) .other (skipStatement true 0 (e :: us)) :=
            .other (by rw [m.isWord_behind hbehind, Bool.false_and])
              (by rw [m.isWord_behind hbehind, m.isWord_behind hbehind, Bool.or_false]) halias
          have hskipped : skipStatement true 0 (e :: us) = us := by
            rw [skipStatement, he]
            rfl
          rw [hskipped] at hread
          exact hread
        refine ⟨.exported .other, us, .inr ⟨hrest, by rw [hbehind]; rfl⟩, ?_, .inr ⟨rfl, rfl⟩⟩
        rw [Shift.apply_cons, Shift.apply_nil, hbehind]
        exact .exported (by rw [m.isWord_move, hlast.1]) (List.cons_ne_nil _ _) hinner

theorem declared?_of_alias? {s : Statement} (h : s.alias? = none) : s.declared? = none := by
  cases s with
  | declares a => cases h
  | other => rfl
  | exported inner =>
    cases inner with
    | declares a => cases h
    | exported _ => rfl
    | other => rfl

/-- The aliases that count in a program, in order. -/
def Program.declarations (p : Program) : List Alias := p.filterMap Statement.declared?

/-- Behind a program and a semicolon, a further program adds its declarations. -/
theorem Runs.shift {ts : List Token} {p q : Program} (m : Shift) (h : Runs ts p)
    (hts : m.behind = [] ∨ Balanced isCode ts) (hq : Runs m.behind.tail q) :
    ∃ p', Runs (m.apply ts) p' ∧ p'.declarations = p.declarations ++ q.declarations := by
  have hbehind : Runs m.behind q := by
    rcases m.behind_eq with hnil | hsemicolon
    · rw [hnil] at hq ⊢
      exact hq
    · obtain ⟨e, us, hbehind, he⟩ := startsWith_eq_true.mp hsemicolon
      rw [hbehind] at hq ⊢
      exact .empty he hq
  induction h with
  | nil => exact ⟨q, hbehind, rfl⟩
  | @empty t ts p ht hp ih =>
    have hplain : Balanced isCode [t] := .plain (by rw [ht]; rfl) (by rw [ht]; rfl)
    obtain ⟨p', hp', heq⟩ := ih (hts.imp_right fun h => h.of_cons hplain)
    exact ⟨p', .empty (by rw [m.kind_move, ht]) hp', heq⟩
  | @statement t ts r s p ht hs hp ih =>
    obtain ⟨s', r', hr, hread, hsame⟩ := hs.shift m hts
    have hdeclared : s'.declared? = s.declared? := by
      rcases hsame with rfl | ⟨hnone, hnone'⟩
      · rfl
      · rw [declared?_of_alias? hnone, declared?_of_alias? hnone']
    have ht' : (m.move t).kind ≠ .semicolon := by rwa [m.kind_move]
    have hcons : ∀ p' : Program, p'.declarations = p.declarations ++ q.declarations →
        Program.declarations (s' :: p') = Program.declarations (s :: p) ++ q.declarations := by
      intro p' heq
      unfold Program.declarations at heq ⊢
      rw [List.filterMap_cons, List.filterMap_cons, hdeclared]
      cases s.declared? with
      | none => exact heq
      | some a => exact congrArg (a :: ·) heq
    rcases hr with rfl | ⟨rfl, rfl⟩
    · obtain ⟨p', hp', heq⟩ := ih (hts.imp_right fun h => by
        obtain ⟨used, hsplit, hused⟩ := hs.consumed h
        rw [hsplit] at h
        exact h.of_append hused)
      exact ⟨s' :: p', .statement ht' hread hp', hcons p' heq⟩
    · cases hp with
      | nil => exact ⟨s' :: q, .statement ht' hread hq, hcons q rfl⟩

/-! ## Tokens at other places -/

section Places

variable {ts r : List Token} {p : Program}

theorem Shift.Follows.eq {m : Shift} {r' : List Token} (h : m.Follows r r') (hm : m.behind = []) :
    r' = m.apply r := by
  rcases h with rfl | ⟨rfl, rfl⟩
  · rfl
  · rw [Shift.apply_nil, hm]
    rfl

/-- A statement is the same statement when its tokens stand elsewhere. -/
theorem ReadsStatement.move {s : Statement} (m : Shift) (hm : m.behind = [])
    (h : ReadsStatement ts s r) : ReadsStatement (m.apply ts) s (m.apply r) := by
  have hempty : ∀ us : List Token, (m.apply us).isEmpty = us.isEmpty := by
    intro us
    cases us with
    | nil => rw [Shift.apply_nil, hm]
    | cons u us => rfl
  induction h with
  | @exported t ts r s ht hne hs ih =>
    refine .exported (by rw [m.isWord_move, ht]) ?_ ih
    cases ts with
    | nil => exact absurd rfl hne
    | cons u us => exact List.cons_ne_nil _ _
  | @hidden t ts ht =>
    rw [← m.skipStatement_apply_of_behind hm]
    exact .hidden (by rw [m.isWord_move, m.isWord_move, ht])
  | @declares t ts r a ht ha =>
    obtain ⟨r', hr, hread⟩ := ha.shift m
    rw [hr.eq hm] at hread
    exact .declares ((m.startsAlias_apply (t :: ts)).trans ht) hread
  | @other t ts hexport hhidden halias =>
    rw [← m.skipStatement_apply_of_behind hm]
    refine .other ?_ (by rw [m.isWord_move, m.isWord_move, hhidden])
      ((m.startsAlias_apply (t :: ts)).trans halias)
    have hlast : (t.isWord "export" && !(m.apply ts).isEmpty) = false := by
      rw [hempty, hexport]
    rwa [← m.isWord_move] at hlast

theorem Runs.move (m : Shift) (hm : m.behind = []) (h : Runs ts p) : Runs (m.apply ts) p := by
  induction h with
  | nil =>
    rw [Shift.apply_nil, hm]
    exact .nil
  | empty ht _ ih => exact .empty (by rw [m.kind_move, ht]) ih
  | statement ht hs _ ih => exact .statement (by rwa [m.kind_move]) (hs.move m hm) ih

/-- A program does not change when its tokens are moved. -/
theorem Runs.map {move : Token → Token} (hkind : ∀ t, (move t).kind = t.kind)
    (htext : ∀ t, (move t).text = t.text) (h : Runs ts p) : Runs (ts.map move) p := by
  have hmoved := h.move (.moved move hkind htext) rfl
  rwa [Shift.apply_moved] at hmoved

end Places

end AliasCheck
