import AliasCheck.Proofs.FoundTokens
import AliasCheck.Proofs.Readers

/-!
# Phrases in lists that are cut off

A reader stops where the next token does not go on with what it has read. What it has seen by then
is that token, and the one after it only if the first is a bar or a bracket. So a phrase is the same
in a list that has been cut off somewhere behind it (`Reads.cut`). It makes no difference if nothing
is left there, because no token goes on with anything then. The exception is a bar that is left
alone: together with a brace it would close an object type, without it it would join a term. No
phrase ends with a bar, so this can only happen at the end of the list.
-/

namespace AliasCheck

open Grammar AliasCheck.Bracket

/-! ## No phrase ends with a bar -/

/-- Between `ts` and its end `r` there are tokens that do not end with a bar, or none. -/
def EndsWithoutBar (ts r : List Token) : Prop :=
  ∃ used, ts = used ++ r ∧ ∀ t, used.getLast? = some t → t.kind ≠ .pipe

namespace EndsWithoutBar

variable {t : Token} {ts us r : List Token}

theorem refl (ts : List Token) : EndsWithoutBar ts ts := ⟨[], rfl, nofun⟩

theorem single (ht : t.kind ≠ .pipe) (r : List Token) : EndsWithoutBar (t :: r) r :=
  ⟨[t], rfl, by rintro _ ⟨⟩; exact ht⟩

theorem trans (h : EndsWithoutBar ts us) (h' : EndsWithoutBar us r) : EndsWithoutBar ts r := by
  obtain ⟨first, rfl, hfirst⟩ := h
  obtain ⟨second, rfl, hsecond⟩ := h'
  refine ⟨first ++ second, by simp, fun t ht => ?_⟩
  rw [List.getLast?_append] at ht
  cases hlast : second.getLast? with
  | none =>
    rw [hlast] at ht
    exact hfirst t ht
  | some u =>
    rw [hlast] at ht
    cases ht
    exact hsecond _ hlast

/-- What stands in front does not matter if anything is passed behind it. -/
theorem lead (h : EndsWithoutBar us r) (hus : us <:+ ts) (hlen : r.length < us.length) :
    EndsWithoutBar ts r := by
  obtain ⟨front, rfl⟩ := hus
  obtain ⟨used, rfl, hused⟩ := h
  refine ⟨front ++ used, by simp, fun t ht => hused t ?_⟩
  have hne : used ≠ [] := by
    rintro rfl
    exact absurd hlen (Nat.lt_irrefl _)
  rwa [List.getLast?_append_of_ne_nil _ hne] at ht

end EndsWithoutBar

theorem Reads.suffix {p : Phrase} {ts r : List Token} {x : p.Value} (h : Reads p ts x r) :
    r <:+ ts :=
  suffix_of_passes h.consumed

section

variable {ts r : List Token}

theorem endsWithoutBar_identifier {id : String} (h : identifier ts = .ok (id, r)) :
    EndsWithoutBar ts r := by
  obtain ⟨t, ht, -, rfl⟩ := identifier_eq_ok.mp h
  exact .single (by rw [ht]; decide) r

theorem endsWithoutBar_qualifiedName {id : String} (h : qualifiedName ts = .ok (id, r)) :
    EndsWithoutBar ts r := by
  obtain ⟨⟨name, us⟩, hname, h⟩ := bind_eq_ok.mp h
  refine (endsWithoutBar_identifier hname).trans ?_
  clear hname
  dsimp only at h
  fun_induction segments name us with
  | case1 =>
    cases h
    exact .refl _
  | case2 name d t us hd ht ih =>
    have hsegment : EndsWithoutBar (t :: us) us := .single (by rw [ht]; decide) us
    exact (hsegment.lead (List.suffix_cons d _) (by simp)).trans (ih h)
  | case3 => cases h
  | case4 => cases h
  | case5 =>
    cases h
    exact .refl _
  | case6 =>
    cases h
    exact .refl _

theorem endsWithoutBar_arrays (x : TypeTerm) (ts : List Token) :
    EndsWithoutBar ts (arrays x ts).2 := by
  fun_induction arrays x ts with
  | case1 x o c ts h ih =>
    have hpair : EndsWithoutBar (c :: ts) ts := .single (by rw [h.2]; decide) ts
    exact (hpair.lead (List.suffix_cons o _) (by simp)).trans ih
  | case2 => exact .refl _
  | case3 => exact .refl _

theorem endsWithoutBar_objectEnd? {exact' : Bool} (h : objectEnd? exact' ts = some r) :
    EndsWithoutBar ts r := by
  have hclose : ∀ {us : List Token}, eat? .closeBrace us = some r → us <:+ ts →
      EndsWithoutBar ts r := by
    intro us hus hsuffix
    obtain ⟨c, hc, rfl⟩ := eat?_eq_some.mp hus
    exact (EndsWithoutBar.single (by rw [hc]; decide) r).lead hsuffix (by simp)
  unfold objectEnd? at h
  split at h
  · obtain ⟨us, hpipe, hus⟩ := Option.bind_eq_some_iff.mp h
    exact hclose hus (suffix_of_eat? hpipe)
  · exact hclose h List.suffix_rfl

theorem closer_ne_pipe (b : Bracket) : b.closer ≠ .pipe := by cases b <;> decide

end

/-- No phrase ends with a bar. -/
theorem Reads.endsWithoutBar {p : Phrase} {ts r : List Token} {x : p.Value} (h : Reads p ts x r) :
    EndsWithoutBar ts r := by
  induction h with
  | term hfirst _ ihfirst ihrest =>
    exact (ihfirst.lead (skip_suffix _ _) (hfirst.length_lt rfl)).trans ihrest
  | conjunct hfirst _ ihfirst ihrest =>
    exact (ihfirst.lead (skip_suffix _ _) (hfirst.length_lt rfl)).trans ihrest
  | noMore _ => exact .refl _
  | moreUnion h hx _ ihx ihxs =>
    exact (ihx.lead (suffix_of_next? h) (hx.length_lt rfl)).trans ihxs
  | moreIntersection h hx _ ihx ihxs =>
    exact (ihx.lead (suffix_of_next? h) (hx.length_lt rfl)).trans ihxs
  | nullable _ hx ihx => exact ihx.lead (List.suffix_cons _ _) (hx.length_lt rfl)
  | suffixed _ _ ihx => exact ihx.trans (endsWithoutBar_arrays _ _)
  | object _ hms ihms =>
    exact ihms.lead ((skip_suffix _ _).trans (List.suffix_cons _ _)) (hms.length_lt rfl)
  | tuple _ hxs ihxs => exact ihxs.lead (List.suffix_cons _ _) (hxs.length_lt rfl)
  | group _ hx hc _ _ =>
    exact (EndsWithoutBar.single (by rw [hc]; decide) _).lead
      (hx.suffix.trans (List.suffix_cons _ _)) (by simp)
  | functionType _ _ ih => exact ih
  | stringLiteral ht => exact .single (by rw [ht]; decide) _
  | numberLiteral ht => exact .single (by rw [ht]; decide) _
  | negativeLiteral _ hn =>
    exact (EndsWithoutBar.single (by rw [hn]; decide) _).lead (List.suffix_cons _ _) (by simp)
  | existential ht => exact .single (by rw [ht]; decide) _
  | word ht _ => exact .single (by rw [ht]; decide) _
  | typeOf _ _ hid =>
    have hname : Passes isCode 1 [] _ _ := passes_qualifiedName hid
    exact (endsWithoutBar_qualifiedName hid).lead (List.suffix_cons _ _) hname.length_le
  | named _ _ _ hid _ => exact endsWithoutBar_qualifiedName hid
  | applied _ _ _ hid _ hargs ihargs =>
    have hname := suffix_of_passes (passes_qualifiedName hid)
    exact ihargs.lead ((List.suffix_cons _ _).trans hname) (hargs.length_lt rfl)
  | @noItems b _ _ _ hc => exact .single (by rw [hc]; exact closer_ne_pipe b) _
  | @lastItem b _ _ _ _ _ _ _ hx hc _ =>
    exact (EndsWithoutBar.single (by rw [hc]; exact closer_ne_pipe b) _).lead hx.suffix (by simp)
  | item _ _ hx _ hxs _ ihxs =>
    exact ihxs.lead ((List.suffix_cons _ _).trans hx.suffix) (hxs.length_lt rfl)
  | notBehind _ _ => exact .refl _
  | behind _ _ hx ihx => exact ihx.lead (List.suffix_cons _ _) (hx.length_lt rfl)
  | typeParam hid _ _ ihbound ihdefault =>
    have hpasses : Passes isCode 1 [] _ _ := passes_identifier hid
    have hname := (endsWithoutBar_identifier hid).lead
      (suffix_of_passes (passes_skipVariance _)) hpasses.length_le
    exact hname.trans (ihbound.trans ihdefault)
  | noTypeParams _ => exact .refl _
  | typeParams _ hids ihids => exact ihids.lead (List.suffix_cons _ _) (hids.length_lt rfl)
  | @param ts _ _ hx ihx =>
    have hname := suffix_of_passes (passes_skipParamName (skip .ellipsis ts))
    exact ihx.lead (hname.trans (skip_suffix .ellipsis ts)) (hx.length_lt rfl)
  | function _ hids _ hparams _ hreturns _ _ ihreturns =>
    have hresult := ((List.suffix_cons _ _).trans hparams.suffix).trans
      ((List.suffix_cons _ _).trans hids.suffix)
    exact ihreturns.lead hresult (hreturns.length_lt rfl)
  | bareSpread ht _ => exact .single (by rw [ht]; decide) _
  | spread _ _ hx ihx => exact ihx.lead (List.suffix_cons _ _) (hx.length_lt rfl)
  | @indexer t c d ts r _ _ _ _ hk _ _ hx _ ihx =>
    have hkey := hk.suffix.trans (suffix_of_passes (passes_skipIndexName ts))
    have hvalue := (List.suffix_cons d r).trans ((List.suffix_cons c _).trans hkey)
    exact ihx.lead (hvalue.trans (List.suffix_cons t ts)) (hx.length_lt rfl)
  | call _ _ ih => exact ih
  | @method t k ts r _ _ _ _ hk _ _ hx ihx =>
    have hsign := suffix_of_passes (passes_skipVariance (t :: ts))
    rw [hk] at hsign
    exact ihx.lead ((List.suffix_cons _ _).trans hsign) (hx.length_lt rfl)
  | @property t k c ts r r' _ _ _ _ hk _ _ hc _ hx ihx =>
    have hsign := suffix_of_passes (passes_skipVariance (t :: ts))
    have hquestion := skip_suffix .question r
    rw [hk] at hsign
    rw [hc] at hquestion
    have hvalue := hquestion.trans ((List.suffix_cons k r).trans hsign)
    exact ihx.lead ((List.suffix_cons c r').trans hvalue) (hx.length_lt rfl)
  | noMembers h => exact endsWithoutBar_objectEnd? h
  | members _ hm hend hms _ ihms =>
    exact ihms.lead ((suffix_of_passes (passes_memberEnd hend)).trans hm.suffix) (hms.length_lt rfl)

/-! ## Cutting off what follows -/

/-- The tokens are a bar alone, which may have closed an object type in a longer list. -/
def LoneBar (ts : List Token) : Prop := ∃ t, ts = [t] ∧ t.kind = .pipe

section Cut

variable {kind : Token.Kind} {t c : Token} {ts us ws cut : List Token}

theorem not_loneBar_cons (ht : t.kind ≠ .pipe) : ¬ LoneBar (t :: ts) := by
  rintro ⟨_, ⟨⟩, hpipe⟩
  exact ht hpipe

/-- A phrase is no bar, so a bar that is alone with a phrase in front of it is alone. -/
theorem Reads.not_loneBar {p : Phrase} {x : p.Value} (h : Reads p us x ws) (hws : ¬ LoneBar ws) :
    ¬ LoneBar us := by
  rintro ⟨t, rfl, ht⟩
  obtain ⟨used, hused, hlast⟩ := h.endsWithoutBar
  cases used with
  | nil => exact hws ⟨t, hused.symm, ht⟩
  | cons u used =>
    rw [List.cons_append, List.cons.injEq] at hused
    obtain ⟨rfl, hnil⟩ := hused
    obtain ⟨rfl, -⟩ := List.append_eq_nil_iff.mp hnil.symm
    exact hlast t rfl ht

theorem startsWith_append (hws : ws ≠ []) : startsWith kind (ws ++ cut) = startsWith kind ws := by
  cases ws with
  | nil => exact absurd rfl hws
  | cons t ws => rfl

theorem startsWith_cut (h : startsWith kind (ws ++ cut) = false) : startsWith kind ws = false := by
  cases ws with
  | nil => rfl
  | cons t ws => exact h

theorem eatAll?_append (h : eatAll? kinds ws = some us) (cut : List Token) :
    eatAll? kinds (ws ++ cut) = some (us ++ cut) := by
  obtain ⟨used, hused, rfl⟩ := eatAll?_eq_some.mp h
  exact eatAll?_eq_some.mpr ⟨used, hused, List.append_assoc ..⟩

theorem eatAll?_eq_none_cut (h : eatAll? kinds (ws ++ cut) = none) : eatAll? kinds ws = none := by
  cases hws : eatAll? kinds ws with
  | none => rfl
  | some us =>
    rw [eatAll?_append hws] at h
    cases h

theorem eatAll?_eq_some_cut (h : eatAll? kinds ts = some (ws ++ cut)) :
    ∃ us, ts = us ++ cut ∧ eatAll? kinds us = some ws := by
  obtain ⟨used, hused, rfl⟩ := eatAll?_eq_some.mp h
  exact ⟨used ++ ws, (List.append_assoc ..).symm, eatAll?_eq_some.mpr ⟨used, hused, rfl⟩⟩

/-- Tokens that may be skipped are the same in a list that has been cut off behind them, if what is
skipped without them is. -/
theorem getD_eatAll?_cut {f : List Token → List Token}
    (hf : f ts = ws ++ cut → ∃ us, ts = us ++ cut ∧ f us = ws)
    (h : (eatAll? kinds ts).getD (f ts) = ws ++ cut) :
    ∃ us, ts = us ++ cut ∧ (eatAll? kinds us).getD (f us) = ws := by
  cases hts : eatAll? kinds ts with
  | none =>
    rw [hts, Option.getD_none] at h
    obtain ⟨us, rfl, hus⟩ := hf h
    exact ⟨us, rfl, by rw [eatAll?_eq_none_cut hts, Option.getD_none, hus]⟩
  | some r =>
    rw [hts, Option.getD_some] at h
    rw [h] at hts
    obtain ⟨us, rfl, hus⟩ := eatAll?_eq_some_cut hts
    exact ⟨us, rfl, by rw [hus, Option.getD_some]⟩

theorem skip_cut (h : skip kind ts = ws ++ cut) : ∃ us, ts = us ++ cut ∧ skip kind us = ws := by
  simp only [skip_eq] at h ⊢
  exact getD_eatAll?_cut (f := id) (fun hts => ⟨ws, hts, rfl⟩) h

theorem skipVariance_cut (h : skipVariance ts = ws ++ cut) :
    ∃ us, ts = us ++ cut ∧ skipVariance us = ws := by
  unfold skipVariance at h
  cases hts : eat? .plus ts with
  | none =>
    rw [hts] at h
    obtain ⟨us, rfl, hus⟩ := skip_cut h
    refine ⟨us, rfl, ?_⟩
    rw [skipVariance, eat?_eq_none.mpr (startsWith_cut (eat?_eq_none.mp hts))]
    exact hus
  | some r =>
    rw [hts] at h
    obtain ⟨t, ht, rfl⟩ := eat?_eq_some.mp hts
    refine ⟨t :: ws, congrArg (t :: ·) h, ?_⟩
    rw [skipVariance, eat?_cons ht]

theorem identifier_cut {id : String} (h : identifier ts = .ok (id, ws ++ cut)) :
    ∃ us, ts = us ++ cut ∧ identifier us = .ok (id, ws) := by
  obtain ⟨t, ht, hid, rfl⟩ := identifier_eq_ok.mp h
  exact ⟨t :: ws, rfl, identifier_eq_ok.mpr ⟨t, ht, hid, rfl⟩⟩

theorem segments_cut {name id : String} (h : segments name ts = .ok (id, ws ++ cut)) :
    ∃ us, ts = us ++ cut ∧ segments name us = .ok (id, ws) := by
  have hdone : ∀ {name : String} {ts : List Token}, startsWith .dot ts = false →
      (name, ts) = (id, ws ++ cut) → ∃ us, ts = us ++ cut ∧ segments name us = .ok (id, ws) := by
    rintro name ts hts ⟨⟩
    exact ⟨ws, rfl, segments_of_noDot id (startsWith_cut hts)⟩
  fun_induction segments name ts with
  | case1 name d t ts hd => exact hdone (by simpa using hd) (Except.ok.inj h)
  | case2 name d t ts hd ht ih =>
    obtain ⟨us, rfl, hus⟩ := ih h
    refine ⟨d :: t :: us, rfl, ?_⟩
    rw [segments, if_neg hd, if_pos ht, hus]
  | case3 => cases h
  | case4 => cases h
  | case5 name d hd => exact hdone (by simpa using hd) (Except.ok.inj h)
  | case6 name => exact hdone rfl (Except.ok.inj h)

theorem qualifiedName_cut {id : String} (h : qualifiedName ts = .ok (id, ws ++ cut)) :
    ∃ us, ts = us ++ cut ∧ qualifiedName us = .ok (id, ws) := by
  obtain ⟨⟨name, vs⟩, hname, h⟩ := bind_eq_ok.mp h
  obtain ⟨us, rfl, hus⟩ := segments_cut h
  obtain ⟨first, rfl, hfirst⟩ := identifier_cut hname
  exact ⟨first, rfl, bind_eq_ok.mpr ⟨(name, us), hfirst, hus⟩⟩

/-- Behind its first token, a name is the same in a list that has been cut off. -/
theorem qualifiedName_cons_cut {id : String} (h : qualifiedName (t :: ts) = .ok (id, ws ++ cut)) :
    ∃ us, ts = us ++ cut ∧ qualifiedName (t :: us) = .ok (id, ws) := by
  obtain ⟨us, hus, hname⟩ := qualifiedName_cut h
  cases us with
  | nil => cases hname
  | cons u us =>
    cases hus
    exact ⟨us, rfl, hname⟩

theorem arrays_cut {x : TypeTerm} (h : (arrays x ts).2 = ws ++ cut) :
    ∃ us, ts = us ++ cut ∧ arrays x us = ((arrays x ts).1, ws) := by
  have hdone : ∀ {x : TypeTerm} {ts : List Token},
      (∀ o c us, ts = o :: c :: us → ¬ (o.kind = .openBracket ∧ c.kind = .closeBracket)) →
      ts = ws ++ cut → ∃ us, ts = us ++ cut ∧ arrays x us = (x, ws) := by
    rintro x ts hts rfl
    refine ⟨ws, rfl, arrays_of_noBrackets x fun us hus => ?_⟩
    obtain ⟨o, ho, rfl⟩ := eat?_eq_some.mp hus
    cases us with
    | nil => rfl
    | cons c us =>
      rw [startsWith_cons, beq_eq_false_iff_ne]
      exact fun hc => hts o c (us ++ cut) rfl ⟨ho, hc⟩
  fun_induction arrays x ts with
  | case1 x o c ts hpair ih =>
    obtain ⟨us, rfl, hus⟩ := ih h
    exact ⟨o :: c :: us, rfl, by rw [arrays, if_pos hpair, hus]⟩
  | case2 x o c ts hpair =>
    refine hdone ?_ h
    rintro _ _ _ ⟨⟩
    exact hpair
  | case3 x ts hshort =>
    refine hdone ?_ h
    rintro o c us rfl
    exact absurd rfl (hshort o c us)

theorem next?_eq_none_cut {joint : Joint} (h : joint.next? (ws ++ cut) = none)
    (hws : ¬ LoneBar ws) : joint.next? ws = none := by
  cases joint with
  | intersection => exact eat?_eq_none.mpr (startsWith_cut (eat?_eq_none.mp h))
  | union =>
    refine Option.eq_none_iff_forall_ne_some.mpr fun us hus => ?_
    obtain ⟨hbar, hclose⟩ := Option.filter_eq_some_iff.mp hus
    obtain ⟨t, ht, rfl⟩ := eat?_eq_some.mp hbar
    have hne : us ≠ [] := by
      rintro rfl
      exact hws ⟨t, rfl, ht⟩
    have hbar' : unionBar? (t :: (us ++ cut)) = some (us ++ cut) := by
      refine Option.filter_eq_some_iff.mpr ⟨eat?_cons ht _, ?_⟩
      rwa [startsWith_append hne]
    cases h.symm.trans hbar'

theorem next?_eq_some_cut {joint : Joint} (h : joint.next? ts = some (ws ++ cut)) :
    ∃ us, ts = us ++ cut ∧ joint.next? us = some ws := by
  cases joint with
  | intersection =>
    obtain ⟨t, ht, rfl⟩ := eat?_eq_some.mp h
    exact ⟨t :: ws, rfl, eat?_cons ht ws⟩
  | union =>
    obtain ⟨hbar, hclose⟩ := Option.filter_eq_some_iff.mp h
    obtain ⟨t, ht, rfl⟩ := eat?_eq_some.mp hbar
    have hopen : startsWith .closeBrace (ws ++ cut) = false := by simpa using hclose
    refine ⟨t :: ws, rfl, Option.filter_eq_some_iff.mpr ⟨eat?_cons ht ws, ?_⟩⟩
    rw [startsWith_cut hopen]
    rfl

theorem skipIndexName_cut (h : skipIndexName ts = ws ++ cut) :
    ∃ us, ts = us ++ cut ∧ skipIndexName us = ws := by
  simp only [skipIndexName_eq] at h ⊢
  exact getD_eatAll?_cut (f := id) (fun hts => ⟨ws, hts, rfl⟩) h

theorem skipParamName_cut (h : skipParamName ts = ws ++ cut) :
    ∃ us, ts = us ++ cut ∧ skipParamName us = ws := by
  simp only [skipParamName_eq] at h ⊢
  exact getD_eatAll?_cut skipIndexName_cut h

theorem spreadEnds_cut (h : spreadEnds (ws ++ cut) = false) : spreadEnds ws = false := by
  cases ws with
  | nil => rfl
  | cons t ws => exact h

theorem objectEnd?_eq_none_cut {exact' : Bool} (h : objectEnd? exact' (ws ++ cut) = none) :
    objectEnd? exact' ws = none := by
  rw [objectEnd?_eq] at h ⊢
  exact eatAll?_eq_none_cut h

theorem objectEnd?_eq_some_cut {exact' : Bool} (h : objectEnd? exact' ts = some (ws ++ cut)) :
    ∃ us, ts = us ++ cut ∧ objectEnd? exact' us = some ws := by
  simp only [objectEnd?_eq] at h ⊢
  exact eatAll?_eq_some_cut h

/-- Where an object type ends, it still does if its end is not cut in two. -/
theorem objectEnd?_of_append {exact' : Bool} (h : objectEnd? exact' (ws ++ cut) = some us)
    (hne : ws ≠ []) (hws : ¬ LoneBar ws) : ∃ vs, objectEnd? exact' ws = some vs := by
  cases ws with
  | nil => exact absurd rfl hne
  | cons t ws =>
    unfold objectEnd? at h ⊢
    cases exact' with
    | false =>
      obtain ⟨c, hc, heq⟩ := eat?_eq_some.mp h
      cases heq
      exact ⟨ws, eat?_cons hc ws⟩
    | true =>
      obtain ⟨r, hbar, hclose⟩ := Option.bind_eq_some_iff.mp h
      obtain ⟨b, hb, heq⟩ := eat?_eq_some.mp hbar
      cases heq
      cases ws with
      | nil => exact absurd ⟨t, rfl, hb⟩ hws
      | cons c ws =>
        obtain ⟨d, hd, heq⟩ := eat?_eq_some.mp hclose
        cases heq
        exact ⟨ws, Option.bind_eq_some_iff.mpr ⟨c :: ws, eat?_cons hb _, eat?_cons hd ws⟩⟩

theorem memberEnd_cut {exact' : Bool} (h : memberEnd exact' ts = .ok (ws ++ cut)) (hne : ws ≠ [])
    (hws : ¬ LoneBar ws) :
    ∃ us, ts = us ++ cut ∧ us ≠ [] ∧ ¬ LoneBar us ∧ memberEnd exact' us = .ok ws := by
  unfold memberEnd at h
  split at h
  · rename_i r hsemicolon
    obtain ⟨t, ht, rfl⟩ := eat?_eq_some.mp hsemicolon
    cases h
    refine ⟨t :: ws, rfl, List.cons_ne_nil t ws, not_loneBar_cons (by rw [ht]; decide), ?_⟩
    rw [memberEnd, eat?_cons ht]
  · rename_i r hsemicolon hcomma
    obtain ⟨t, ht, rfl⟩ := eat?_eq_some.mp hcomma
    cases h
    have hnone : eat? .semicolon (t :: ws) = none := by
      rw [eat?_eq_none, startsWith_cons, ht]
      rfl
    refine ⟨t :: ws, rfl, List.cons_ne_nil t ws, not_loneBar_cons (by rw [ht]; decide), ?_⟩
    rw [memberEnd, hnone, eat?_cons ht]
  · rename_i r hsemicolon hcomma hend
    cases h
    obtain ⟨us, hus⟩ := objectEnd?_of_append hend hne hws
    refine ⟨ws, rfl, hne, hws, ?_⟩
    rw [memberEnd, eat?_eq_none.mpr (startsWith_cut (eat?_eq_none.mp hsemicolon)),
      eat?_eq_none.mpr (startsWith_cut (eat?_eq_none.mp hcomma)), hus]
  · cases h

theorem cons_eq_append (h : t :: ts = ws ++ cut) (hne : ws ≠ []) :
    ∃ us, ts = us ++ cut ∧ ws = t :: us := by
  cases ws with
  | nil => exact absurd rfl hne
  | cons u us =>
    rw [List.cons_append, List.cons.injEq] at h
    exact ⟨us, h.2, by rw [h.1]⟩

theorem Reads.ne_nil {p : Phrase} {x : p.Value} (h : Reads p ts x us) (hp : p.least = 1) :
    ts ≠ [] := by
  rintro rfl
  exact absurd (h.length_lt hp) (Nat.not_lt_zero _)

end Cut

/-- A phrase is the same in a list that has been cut off behind it, unless a bar is left alone
there. Whether a spread names a type depends on the token behind it, which must be left. -/
theorem Reads.cut {p : Phrase} {ts r : List Token} {x : p.Value} (h : Reads p ts x r)
    {rs cut : List Token} (hr : r = rs ++ cut) (hrs : ¬ LoneBar rs)
    (hspread : p = .member → rs ≠ []) : ∃ ws, ts = ws ++ cut ∧ Reads p ws x rs := by
  induction h generalizing rs with
  | term _ _ ihfirst ihrest =>
    obtain ⟨us, rfl, hmore⟩ := ihrest hr hrs nofun
    obtain ⟨vs, hvs, hread⟩ := ihfirst rfl (hmore.not_loneBar hrs) nofun
    obtain ⟨ws, rfl, rfl⟩ := skip_cut hvs
    exact ⟨ws, rfl, .term hread hmore⟩
  | conjunct _ _ ihfirst ihrest =>
    obtain ⟨us, rfl, hmore⟩ := ihrest hr hrs nofun
    obtain ⟨vs, hvs, hread⟩ := ihfirst rfl (hmore.not_loneBar hrs) nofun
    obtain ⟨ws, rfl, rfl⟩ := skip_cut hvs
    exact ⟨ws, rfl, .conjunct hread hmore⟩
  | noMore h =>
    subst hr
    exact ⟨rs, rfl, .noMore (next?_eq_none_cut h hrs)⟩
  | moreUnion h _ _ ihx ihxs =>
    obtain ⟨us, rfl, hmore⟩ := ihxs hr hrs nofun
    obtain ⟨vs, rfl, hread⟩ := ihx rfl (hmore.not_loneBar hrs) nofun
    obtain ⟨ws, rfl, hws⟩ := next?_eq_some_cut h
    exact ⟨ws, rfl, .moreUnion hws hread hmore⟩
  | moreIntersection h _ _ ihx ihxs =>
    obtain ⟨us, rfl, hmore⟩ := ihxs hr hrs nofun
    obtain ⟨vs, rfl, hread⟩ := ihx rfl (hmore.not_loneBar hrs) nofun
    obtain ⟨ws, rfl, hws⟩ := next?_eq_some_cut h
    exact ⟨ws, rfl, .moreIntersection hws hread hmore⟩
  | nullable ht _ ihx =>
    obtain ⟨ws, rfl, hread⟩ := ihx hr hrs nofun
    exact ⟨_ :: ws, rfl, .nullable ht hread⟩
  | @suffixed ts r x h _ ihx =>
    obtain ⟨us, rfl, hus⟩ := arrays_cut hr
    have hbar : ¬ LoneBar us := by
      rintro ⟨t, rfl, ht⟩
      exact hrs ⟨t, (congrArg Prod.snd hus).symm, ht⟩
    obtain ⟨ws, rfl, hread⟩ := ihx rfl hbar nofun
    have hoperand := Reads.suffixed (startsWith_cut h) hread
    rw [hus] at hoperand
    exact ⟨ws, rfl, hoperand⟩
  | object ht _ ihms =>
    obtain ⟨us, hus, hread⟩ := ihms hr hrs nofun
    obtain ⟨ws, rfl, rfl⟩ := skip_cut hus
    have hne : ws ≠ [] := by
      rintro rfl
      exact hread.ne_nil rfl rfl
    rw [startsWith_append hne] at hread ⊢
    exact ⟨_ :: ws, rfl, .object ht hread⟩
  | tuple ht _ ihxs =>
    obtain ⟨ws, rfl, hread⟩ := ihxs hr hrs nofun
    exact ⟨_ :: ws, rfl, .tuple ht hread⟩
  | @group t c ts r x ht _ hc harrow ihx =>
    subst hr
    have hclose : ¬ LoneBar (c :: rs) := not_loneBar_cons (by rw [hc]; decide)
    obtain ⟨ws, rfl, hread⟩ := ihx (List.cons_append ..).symm hclose nofun
    exact ⟨t :: ws, rfl, .group ht hread hc (startsWith_cut harrow)⟩
  | functionType ht _ ihx =>
    obtain ⟨ws, hws, hread⟩ := ihx hr hrs nofun
    obtain ⟨us, rfl, rfl⟩ := cons_eq_append hws (hread.ne_nil rfl)
    exact ⟨_ :: us, rfl, .functionType ht hread⟩
  | stringLiteral ht =>
    subst hr
    exact ⟨_ :: rs, rfl, .stringLiteral ht⟩
  | numberLiteral ht =>
    subst hr
    exact ⟨_ :: rs, rfl, .numberLiteral ht⟩
  | negativeLiteral ht hn =>
    subst hr
    exact ⟨_ :: _ :: rs, rfl, .negativeLiteral ht hn⟩
  | existential ht =>
    subst hr
    exact ⟨_ :: rs, rfl, .existential ht⟩
  | word ht hword =>
    subst hr
    exact ⟨_ :: rs, rfl, .word ht hword⟩
  | typeOf ht htext hid =>
    subst hr
    obtain ⟨us, rfl, hname⟩ := qualifiedName_cut hid
    exact ⟨_ :: us, rfl, .typeOf ht htext hname⟩
  | named ht hword htext hid hangle =>
    subst hr
    obtain ⟨us, rfl, hname⟩ := qualifiedName_cons_cut hid
    exact ⟨_ :: us, rfl, .named ht hword htext hname (startsWith_cut hangle)⟩
  | @applied t o ts r r' id args ht hword htext hid ho _ ihargs =>
    obtain ⟨us, rfl, hread⟩ := ihargs hr hrs nofun
    rw [← List.cons_append] at hid
    obtain ⟨ws, rfl, hname⟩ := qualifiedName_cons_cut hid
    exact ⟨t :: ws, rfl, .applied ht hword htext hname ho hread⟩
  | noItems hc =>
    subst hr
    exact ⟨_ :: rs, rfl, .noItems hc⟩
  | @lastItem b item c ts r x hitem h _ hc ihx =>
    subst hr
    have hclose : ¬ LoneBar (c :: rs) := not_loneBar_cons (by rw [hc]; exact closer_ne_pipe b)
    obtain ⟨ws, rfl, hread⟩ := ihx (List.cons_append ..).symm hclose fun _ => List.cons_ne_nil c rs
    exact ⟨ws, rfl, .lastItem hitem (startsWith_cut h) hread hc⟩
  | @item b item c ts r r' x xs hitem h _ hc _ ihx ihxs =>
    obtain ⟨us, rfl, hmore⟩ := ihxs hr hrs nofun
    have hcomma : ¬ LoneBar (c :: us) := not_loneBar_cons (by rw [hc]; decide)
    obtain ⟨ws, rfl, hread⟩ := ihx (List.cons_append ..).symm hcomma fun _ => List.cons_ne_nil c us
    exact ⟨ws, rfl, .item hitem (startsWith_cut h) hread hc hmore⟩
  | notBehind hkind h =>
    subst hr
    exact ⟨rs, rfl, .notBehind hkind (startsWith_cut h)⟩
  | behind hkind ht _ ihx =>
    obtain ⟨ws, rfl, hread⟩ := ihx hr hrs nofun
    exact ⟨_ :: ws, rfl, .behind hkind ht hread⟩
  | typeParam hid _ _ ihbound ihdefault =>
    obtain ⟨us, rfl, hdefault⟩ := ihdefault hr hrs nofun
    obtain ⟨vs, rfl, hbound⟩ := ihbound rfl (hdefault.not_loneBar hrs) nofun
    obtain ⟨names, hnames, hname⟩ := identifier_cut hid
    obtain ⟨ws, rfl, rfl⟩ := skipVariance_cut hnames
    exact ⟨ws, rfl, .typeParam hname hbound hdefault⟩
  | noTypeParams h =>
    subst hr
    exact ⟨rs, rfl, .noTypeParams (startsWith_cut h)⟩
  | typeParams ht _ ihids =>
    obtain ⟨ws, rfl, hread⟩ := ihids hr hrs nofun
    exact ⟨_ :: ws, rfl, .typeParams ht hread⟩
  | param _ ihx =>
    obtain ⟨us, hus, hread⟩ := ihx hr hrs nofun
    obtain ⟨vs, hvs, rfl⟩ := skipParamName_cut hus
    obtain ⟨ws, rfl, rfl⟩ := skip_cut hvs
    exact ⟨ws, rfl, .param hread⟩
  | @function separator o s ts r r' r'' ids params returns hseparator _ ho _ hs _ ihids ihparams
      ihreturns =>
    obtain ⟨us, rfl, hresult⟩ := ihreturns hr hrs nofun
    have hmark : ¬ LoneBar (s :: us) := by
      refine not_loneBar_cons ?_
      rw [hs]
      rcases hseparator with rfl | rfl <;> decide
    obtain ⟨vs, rfl, hlist⟩ := ihparams (List.cons_append ..).symm hmark nofun
    have hopen : ¬ LoneBar (o :: vs) := not_loneBar_cons (by rw [ho]; decide)
    obtain ⟨ws, rfl, hnames⟩ := ihids (List.cons_append ..).symm hopen nofun
    exact ⟨ws, rfl, .function hseparator hnames ho hlist hs hresult⟩
  | bareSpread ht h =>
    subst hr
    cases rs with
    | nil => exact absurd rfl (hspread rfl)
    | cons u us => exact ⟨_ :: u :: us, rfl, .bareSpread ht h⟩
  | spread ht h _ ihx =>
    obtain ⟨ws, rfl, hread⟩ := ihx hr hrs nofun
    exact ⟨_ :: ws, rfl, .spread ht (spreadEnds_cut h) hread⟩
  | @indexer t c d ts r r' k x ht _ hc hd _ ihk ihx =>
    obtain ⟨us, rfl, hvalue⟩ := ihx hr hrs nofun
    have hclose : ¬ LoneBar (c :: d :: us) := not_loneBar_cons (by rw [hc]; decide)
    obtain ⟨vs, hvs, hkey⟩ := ihk rfl hclose nofun
    obtain ⟨ws, rfl, rfl⟩ := skipIndexName_cut hvs
    exact ⟨t :: ws, rfl, .indexer ht hkey hc hd hvalue⟩
  | call ht _ ihx =>
    obtain ⟨ws, hws, hread⟩ := ihx hr hrs nofun
    obtain ⟨us, rfl, rfl⟩ := cons_eq_append hws (hread.ne_nil rfl)
    exact ⟨_ :: us, rfl, .call ht hread⟩
  | @method t k ts r r' key x ht hk hkey hopen _ ihx =>
    obtain ⟨us, rfl, hread⟩ := ihx hr hrs nofun
    rw [← List.cons_append] at hk
    obtain ⟨vs, hvs, hsign⟩ := skipVariance_cut hk
    obtain ⟨ws, rfl, rfl⟩ := cons_eq_append hvs (by rintro rfl; cases hsign)
    rw [startsWith_append (hread.ne_nil rfl), startsWith_append (hread.ne_nil rfl)] at hopen
    exact ⟨t :: ws, rfl, .method ht hsign hkey hopen hread⟩
  | @property t k c ts r r' r'' key x ht hk hkey hopen hc hcolon _ ihx =>
    obtain ⟨us, rfl, hread⟩ := ihx hr hrs nofun
    rw [← List.cons_append] at hc
    obtain ⟨names, rfl, hquestion⟩ := skip_cut hc
    have hne : names ≠ [] := by
      rintro rfl
      cases hquestion
    rw [← List.cons_append] at hk
    obtain ⟨vs, hvs, hsign⟩ := skipVariance_cut hk
    obtain ⟨ws, rfl, rfl⟩ := cons_eq_append hvs (by rintro rfl; cases hsign)
    rw [startsWith_append hne, startsWith_append hne] at hopen
    rw [startsWith_append hne]
    exact ⟨t :: ws, rfl, .property ht hsign hkey hopen hquestion hcolon hread⟩
  | noMembers h =>
    subst hr
    obtain ⟨ws, rfl, hws⟩ := objectEnd?_eq_some_cut h
    exact ⟨ws, rfl, .noMembers hws⟩
  | members h _ hend _ ihm ihms =>
    obtain ⟨us, rfl, hmore⟩ := ihms hr hrs nofun
    obtain ⟨vs, rfl, hne, hbar, hseparator⟩ :=
      memberEnd_cut hend (hmore.ne_nil rfl) (hmore.not_loneBar hrs)
    obtain ⟨ws, rfl, hread⟩ := ihm rfl hbar fun _ => hne
    exact ⟨ws, rfl, .members (objectEnd?_eq_none_cut h) hread hseparator hmore⟩

end AliasCheck
