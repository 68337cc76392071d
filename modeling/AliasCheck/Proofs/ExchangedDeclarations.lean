import AliasCheck.Proofs.Leniency
import AliasCheck.Proofs.ObjectTypes

/-!
# Exchanging part of a declaration

What stands behind a brace, a semicolon or a comma inside a declaration is out of sight for the
statements in front of the declaration, so they are read as before if it is exchanged. Whether the
program is one afterwards depends on nothing but the declaration (`Begins.exchange`).
-/

namespace AliasCheck

open Grammar
open Relation (Comp)

variable {ts r shown hidden other : List Token}

/-! ## The beginnings of statements -/

theorem startsAlias_iff_shows : startsAlias ts = true ↔
    (∃ t us, ts = t :: us ∧ t.isWord "type" = true) ∧
      (Shows [.identifier, .identifier, .equals] ts ∨
        Shows [.identifier, .identifier, .openAngle] ts) := by
  constructor
  · intro h
    obtain ⟨t, n, e, more, rfl, ht, hn, he⟩ := startsAlias_eq_true h
    have hkind : t.kind = .identifier := by
      rw [Token.isWord, Bool.and_eq_true, beq_iff_eq] at ht
      exact ht.1
    exact ⟨⟨t, n :: e :: more, rfl, ht⟩, by simp [hkind, hn, he]⟩
  · rintro ⟨⟨t, us, rfl, ht⟩, hshows⟩
    have hname : ∃ n e more, us = n :: e :: more ∧ n.kind = .identifier ∧
        (e.kind = .equals ∨ e.kind = .openAngle) := by
      rcases hshows with hshows | hshows
      all_goals
        obtain ⟨n, vs, rfl, hn, hvs⟩ := shows_cons_iff.mp (shows_cons.mp hshows).2
        obtain ⟨e, more, rfl, he, -⟩ := shows_cons_iff.mp hvs
        exact ⟨n, e, more, rfl, hn, by simp [he]⟩
    obtain ⟨n, e, more, rfl, hn, he⟩ := hname
    simp [startsAlias, ht, hn, he]

theorem Screens.startsAlias (h : Screens shown) (hidden other : List Token) :
    startsAlias (shown ++ other) = Grammar.startsAlias (shown ++ hidden) := by
  obtain ⟨t, us, rfl⟩ := List.exists_cons_of_ne_nil h.ne_nil
  refine Bool.eq_iff_iff.mpr ?_
  rw [startsAlias_iff_shows, startsAlias_iff_shows, h.shows (by decide), h.shows (by decide),
    h.shows (by decide), h.shows (by decide)]
  simp

theorem Screens.startsStatement (h : Screens shown) (hidden other : List Token) :
    startsStatement (shown ++ other) = Grammar.startsStatement (shown ++ hidden) := by
  have halias := h.startsAlias hidden other
  obtain ⟨t, us, rfl⟩ := List.exists_cons_of_ne_nil h.ne_nil
  rw [List.cons_append, List.cons_append] at halias ⊢
  rw [Grammar.startsStatement, Grammar.startsStatement, halias]

/-! ## Statements -/

/-- The statement does not end in front of its next token `t`. -/
def GoesOver (first : Bool) (depth : Nat) (t : Token) (ts : List Token) : Prop :=
  (!first && depth == 0 && startsStatement (t :: ts)) = false

/-- A token that is skipped is the last one of its statement, or it opens or closes brackets. -/
theorem skipStatement_cons_cases (first : Bool) (depth : Nat) (t : Token) :
    (∀ ts, GoesOver first depth t ts → skipStatement first depth (t :: ts) = ts) ∨
      ∃ next, ∀ ts, GoesOver first depth t ts →
        skipStatement first depth (t :: ts) = skipStatement false next ts := by
  have hgoes : ∀ ts, GoesOver first depth t ts →
      (!first && depth == 0 && startsStatement (t :: ts)) = false := fun _ hgo => hgo
  cases hkind : t.kind
  case closeBrace =>
    by_cases hdepth : depth ≤ 1
    · exact .inl fun ts hgo => by simp [skipStatement, hgoes ts hgo, hkind, hdepth]
    · exact .inr ⟨depth - 1, fun ts hgo => by simp [skipStatement, hgoes ts hgo, hkind, hdepth]⟩
  case semicolon =>
    by_cases hdepth : depth = 0
    · refine .inl fun ts hgo => ?_
      rw [skipStatement, hgoes ts hgo, if_neg Bool.false_ne_true, hkind]
      exact if_pos hdepth
    · exact .inr ⟨depth, fun ts hgo => by simp [skipStatement, hgoes ts hgo, hkind, hdepth]⟩
  case openBrace | openParen | openBracket =>
    exact .inr ⟨depth + 1, fun ts hgo => by simp [skipStatement, hgoes ts hgo, hkind]⟩
  case closeParen | closeBracket =>
    exact .inr ⟨depth - 1, fun ts hgo => by simp [skipStatement, hgoes ts hgo, hkind]⟩
  all_goals exact .inr ⟨depth, fun ts hgo => by simp [skipStatement, hgoes ts hgo, hkind]⟩

theorem skipStatement_unseen (hshown : Screens shown) (first : Bool) (depth : Nat)
    {used : List Token}
    (h : skipStatement first depth (used ++ (shown ++ hidden)) = shown ++ hidden) :
    skipStatement first depth (used ++ (shown ++ other)) = shown ++ other := by
  induction used generalizing first depth with
  | nil =>
    have hstarts := hshown.startsStatement hidden other
    obtain ⟨t, us, rfl⟩ := List.exists_cons_of_ne_nil hshown.ne_nil
    rw [List.cons_append, List.cons_append] at hstarts
    rw [List.nil_append, List.cons_append] at h ⊢
    cases hstop : !first && depth == 0 && startsStatement (t :: (us ++ hidden)) with
    | true => rw [skipStatement, hstarts, hstop, if_pos rfl]
    | false =>
      -- Then the first token would have been skipped.
      have hlen := congrArg List.length h
      rw [List.length_cons] at hlen
      rcases skipStatement_cons_cases first depth t with hlast | ⟨next, hmore⟩
      · rw [hlast _ hstop] at hlen
        omega
      · rw [hmore _ hstop] at hlen
        have hle := skipStatement_length_le false next (us ++ hidden)
        omega
  | cons t used ih =>
    have hstarts := (hshown.append_left (t :: used)).startsStatement hidden other
    rw [List.append_assoc, List.append_assoc, List.cons_append, List.cons_append] at hstarts
    rw [List.cons_append] at h ⊢
    cases hstop : !first && depth == 0 && startsStatement (t :: (used ++ (shown ++ hidden))) with
    | true =>
      rw [skipStatement, hstop, if_pos rfl] at h
      have hlen := congrArg List.length h
      simp only [List.length_cons, List.length_append] at hlen
      omega
    | false =>
      have hgo : GoesOver first depth t (used ++ (shown ++ other)) := by
        rw [GoesOver, hstarts, hstop]
      rcases skipStatement_cons_cases first depth t with hlast | ⟨next, hmore⟩
      · rw [hlast _ hstop] at h
        rw [hlast _ hgo, List.append_left_eq_self.mp h, List.nil_append]
      · rw [hmore _ hstop] at h
        rw [hmore _ hgo, ih false next h]

theorem ReadsAlias.passage {a : Alias} (h : ReadsAlias ts a r) :
    Passage (ReadsAlias · a ·) ts r := by
  cases h with
  | @mk n e us vs ws params body hname hparams he hbody =>
    refine ((passage_single (by rw [hname]; decide) us).comp (hparams.passage.comp
      ((passage_single (by rw [he]; decide) vs).comp (hbody.passage.comp
        (passage_skip (by decide) ws))))).mono ?_
    rintro _ r ⟨_, rfl, _, hparams, _, rfl, _, hbody, rfl⟩
    exact .mk hname hparams he hbody

/-- A statement is read as before if what cannot be seen behind it is exchanged. -/
theorem ReadsStatement.unseen {s : Statement} (h : ReadsStatement ts s r)
    (hr : r = shown ++ hidden) (hshown : Screens shown) :
    ∃ used, ts = used ++ (shown ++ hidden) ∧
      ∀ other, ReadsStatement (used ++ (shown ++ other)) s (shown ++ other) := by
  have hstarts : ∀ (used : List Token) (other : List Token),
      startsAlias (used ++ (shown ++ other)) = startsAlias (used ++ (shown ++ hidden)) := by
    intro used other
    rw [← List.append_assoc, ← List.append_assoc]
    exact (hshown.append_left used).startsAlias hidden other
  have hne : ∀ used other : List Token, used ++ (shown ++ other) ≠ [] := by
    intro used other
    simp [hshown.ne_nil]
  induction h with
  | exported ht _ _ ih =>
    obtain ⟨used, rfl, hread⟩ := ih hr
    exact ⟨_ :: used, rfl, fun other => .exported ht (hne used other) (hread other)⟩
  | @hidden t ts ht =>
    obtain ⟨used, hused⟩ := skipStatement_suffix true 0 ts
    rw [hr] at hused
    subst hused
    refine ⟨t :: used, rfl, fun other => ?_⟩
    have hskip := @ReadsStatement.hidden t (used ++ (shown ++ other)) ht
    rwa [skipStatement_unseen hshown true 0 hr] at hskip
  | @declares t ts r a ht ha =>
    obtain ⟨used, rfl, hused⟩ := ha.passage
    subst hr
    refine ⟨t :: used, rfl, fun other => .declares ?_ (hused.unseen shown hidden other rfl hshown)⟩
    exact (hstarts (t :: used) other).trans ht
  | @other t ts hexport hhidden halias =>
    obtain ⟨used, hused⟩ := skipStatement_suffix true 0 (t :: ts)
    have hlen := skipStatement_first_length t ts
    rw [hr] at hused hlen
    cases used with
    | nil =>
      rw [List.nil_append] at hused
      rw [hused, List.length_cons] at hlen
      omega
    | cons u used =>
      rw [List.cons_append, List.cons.injEq] at hused
      obtain ⟨rfl, rfl⟩ := hused
      refine ⟨u :: used, rfl, fun other => ?_⟩
      have hexport' : (u.isWord "export" && !(used ++ (shown ++ other)).isEmpty) = false := by
        rw [List.isEmpty_eq_false_iff.mpr (hne used hidden)] at hexport
        rwa [List.isEmpty_eq_false_iff.mpr (hne used other)]
      have hskip := ReadsStatement.other hexport' hhidden ((hstarts (u :: used) other).trans halias)
      rwa [← List.cons_append, skipStatement_unseen hshown true 0 hr] at hskip

/-! ## Declarations -/

theorem StatementAt.exchange (h : StatementAt ts (shown ++ hidden)) (hshown : Screens shown)
    (other : List Token) : ∃ front, ts = front ++ (shown ++ hidden) ∧
      StatementAt (front ++ (shown ++ other)) (shown ++ other) ∧
      ∀ s r, (∀ s', ReadsStatement (shown ++ hidden) s' r → ReadsStatement (shown ++ other) s' r) →
        ReadsStatement ts s r → ReadsStatement (front ++ (shown ++ other)) s r := by
  generalize hplace : shown ++ hidden = place at h
  induction h with
  | here => exact ⟨[], rfl, .here, fun s r hother hs => hother s hs⟩
  | @exported t ts us ht hts hat ih =>
    obtain ⟨front, rfl, hfront, hread⟩ := ih hplace
    have hne : front ++ (shown ++ other) ≠ [] := by simp [hshown.ne_nil]
    refine ⟨t :: front, rfl, .exported ht hne hfront, fun s r hother hs => ?_⟩
    obtain ⟨inner, rfl, hinner⟩ := hs.of_export ht hts
    exact .exported ht hne (hread inner r hother hinner)

theorem Screens.head_stays {t : Token} {front : List Token} (h : Screens shown)
    (hts : t :: ts = front ++ (shown ++ hidden)) (other : List Token) :
    ∃ us, front ++ (shown ++ other) = t :: us := by
  rw [← List.append_assoc] at hts ⊢
  obtain ⟨us, -, hus⟩ := cons_eq_append hts (by simp [h.ne_nil])
  exact ⟨us ++ other, by rw [hus, List.cons_append]⟩

/-- What is out of sight in a statement may be exchanged if the statement is read as before. -/
theorem Begins.exchange (h : Begins ts (shown ++ hidden)) (hshown : Screens shown)
    (other : List Token) : ∃ front, ts = front ++ (shown ++ hidden) ∧
      Begins (front ++ (shown ++ other)) (shown ++ other) ∧
      ∀ p, (∀ s r, ReadsStatement (shown ++ hidden) s r → ReadsStatement (shown ++ other) s r) →
        Runs ts p → Runs (front ++ (shown ++ other)) p := by
  generalize hplace : shown ++ hidden = place at h
  induction h with
  | @empty t ts us ht _ ih =>
    obtain ⟨front, rfl, hfront, hruns⟩ := ih hplace
    refine ⟨t :: front, rfl, .empty ht hfront, fun p hother hp => ?_⟩
    cases hp with
    | empty _ hp => exact .empty ht (hruns p hother hp)
    | statement hne _ _ => exact absurd ht hne
  | @first t ts us ht hat =>
    subst hplace
    obtain ⟨front, hfront, hat', hread⟩ := hat.exchange hshown other
    obtain ⟨us, hus⟩ := hshown.head_stays hfront other
    refine ⟨front, hfront, ?_, fun p hother hp => ?_⟩
    · rw [hus] at hat' ⊢
      exact .first ht hat'
    · cases hp with
      | empty hsemicolon _ => exact absurd hsemicolon ht
      | @statement _ _ r s p _ hs hp =>
        have hread' := hread s r (fun s' => hother s' r) hs
        rw [hus] at hread' ⊢
        exact .statement ht hread' hp
  | @later t ts r us s ht hs _ ih =>
    obtain ⟨front, rfl, hfront, hruns⟩ := ih hplace
    subst hplace
    have hfrontShown := hshown.append_left front
    obtain ⟨used, hused, hread⟩ := hs.unseen (List.append_assoc ..).symm hfrontShown
    obtain ⟨us, hus⟩ := hfrontShown.head_stays hused other
    have hread := hread other
    rw [hus, List.append_assoc] at hread
    rw [List.append_assoc] at hus
    refine ⟨used ++ front, by rw [hused]; simp, ?_, fun p hother hp => ?_⟩
    · rw [List.append_assoc, hus]
      exact .later ht hread hfront
    · cases hp with
      | empty hsemicolon _ => exact absurd hsemicolon ht
      | @statement _ _ r' s' p _ hs' hp =>
        cases hs.unique hs'
        obtain ⟨used', hused', hread'⟩ := hs'.unseen (List.append_assoc ..).symm hfrontShown
        cases List.append_cancel_right (hused.symm.trans hused')
        have hread' := hread' other
        rw [List.append_assoc, hus] at hread'
        rw [List.append_assoc, hus]
        exact .statement ht hread' (hruns p hother hp)

theorem Runs.statement_at {p : Program} {us : List Token} (h : Runs ts p) (hus : Begins ts us) :
    ∃ s r, ReadsStatement us s r := by
  induction hus generalizing p with
  | empty ht _ ih =>
    cases h with
    | empty _ hp => exact ih hp
    | statement hne _ _ => exact absurd ht hne
  | first ht hat =>
    cases h with
    | empty hsemicolon _ => exact absurd hsemicolon ht
    | statement _ hs _ =>
      obtain ⟨s, hread⟩ := hat.reads hs
      exact ⟨s, _, hread⟩
  | later ht hs _ ih =>
    cases h with
    | empty hsemicolon _ => exact absurd hsemicolon ht
    | statement _ hs' hp =>
      rw [← hs.unique hs'] at hp
      exact ih hp

end AliasCheck
