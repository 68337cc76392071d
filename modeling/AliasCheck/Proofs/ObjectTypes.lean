import AliasCheck.Proofs.CutTerms
import Mathlib.Logic.Relation

/-!
# Object types inside phrases

An opening brace that is passed while a phrase is read begins an object type, however deep it stands
in the phrase. If another object type with the same meaning is put in its place, the phrase is still
one and means the same. Both are shown rule by rule: a rule is a chain of stretches, each of which
is read in some way, and `Stretch` collects what holds of a stretch of tokens wherever it stands in
a chain. That the tokens in front of the brace are read as before is because readers do not see what
stands behind an opening brace that they have not come to. Nor do they see what stands behind a
semicolon or a comma.
-/

namespace AliasCheck

open Grammar
open Relation (Comp)

/-! ## What readers do not see -/

/-- No reader in front of these tokens sees what stands behind them. -/
def Screens (ts : List Token) : Prop := ∃ t ∈ ts, t.kind ∈ [.openBrace, .semicolon, .comma]

namespace Screens

variable {t : Token} {ts us : List Token}

theorem single (ht : t.kind ∈ [.openBrace, .semicolon, .comma]) : Screens [t] :=
  ⟨t, List.mem_singleton_self t, ht⟩

theorem ne_nil (h : Screens ts) : ts ≠ [] := by
  obtain ⟨t, ht, -⟩ := h
  exact List.ne_nil_of_mem ht

theorem cons_iff : Screens (t :: ts) ↔
    t.kind ∈ [.openBrace, .semicolon, .comma] ∨ Screens ts := List.exists_mem_cons_iff ..

theorem append_left (h : Screens ts) (us : List Token) : Screens (us ++ ts) := by
  obtain ⟨t, ht, hkind⟩ := h
  exact ⟨t, List.mem_append_right us ht, hkind⟩

end Screens

/-! ## Stretches of tokens -/

/-- The stretch `used` in front of `r` is read in the way `R`, which relates the tokens in front of
a stretch to those behind it. -/
structure Stretch (R : List Token → List Token → Prop) (used r : List Token) : Prop where
  holds : R (used ++ r) r
  /-- What cannot be seen does not matter. -/
  unseen : ∀ shown hidden other, r = shown ++ hidden → Screens shown →
    R (used ++ (shown ++ other)) (shown ++ other)
  /-- At an opening brace there is an object type, which can be exchanged. -/
  objects : ∀ front o within, used = front ++ o :: within → o.kind = .openBrace →
    ∃ obj r', Reads .primary (o :: (within ++ r)) obj r' ∧
      ∀ rest, Reads .primary (o :: rest) obj r' → R (front ++ o :: rest) r

/-- What is read in the way `R` from `ts` up to `r`. -/
def Passage (R : List Token → List Token → Prop) (ts r : List Token) : Prop :=
  ∃ used, ts = used ++ r ∧ Stretch R used r

/-- What stands in a list of two parts stands in the one or in the other. -/
theorem append_cons_eq_append {α : Type} {front within first second : List α} {o : α}
    (h : front ++ o :: within = first ++ second) :
    (∃ inner, first = front ++ o :: inner ∧ within = inner ++ second) ∨
      ∃ lead, front = first ++ lead ∧ second = lead ++ o :: within := by
  rcases List.append_eq_append_iff.mp h with ⟨cut, hfirst, hcut⟩ | hsecond
  · cases cut with
    | nil => exact .inr ⟨[], by simpa using hfirst.symm, hcut.symm⟩
    | cons o' inner =>
      cases hcut
      exact .inl ⟨inner, hfirst, rfl⟩
  · exact .inr hsecond

section Stretches

variable {R S : List Token → List Token → Prop} {ts us r : List Token}

/-- Two stretches, one behind the other. -/
theorem Stretch.comp {first second : List Token} (h : Stretch R first (second ++ r))
    (h' : Stretch S second r) : Stretch (Comp R S) (first ++ second) r where
  holds := ⟨second ++ r, by rw [List.append_assoc]; exact h.holds, h'.holds⟩
  unseen := by
    rintro shown hidden other rfl hshown
    have hfirst := h.unseen (second ++ shown) hidden other (List.append_assoc ..).symm
      (hshown.append_left second)
    rw [List.append_assoc] at hfirst ⊢
    exact ⟨second ++ (shown ++ other), hfirst, h'.unseen shown hidden other rfl hshown⟩
  objects := by
    intro front o within hused ho
    rcases append_cons_eq_append hused.symm with ⟨inner, rfl, rfl⟩ | ⟨lead, rfl, rfl⟩
    · obtain ⟨obj, r', hobj, hother⟩ := h.objects front o inner rfl ho
      rw [← List.append_assoc] at hobj
      exact ⟨obj, r', hobj, fun rest hrest => ⟨second ++ r, hother rest hrest, h'.holds⟩⟩
    · obtain ⟨obj, r', hobj, hother⟩ := h'.objects lead o within rfl ho
      refine ⟨obj, r', hobj, fun rest hrest => ⟨lead ++ o :: rest, ?_, hother rest hrest⟩⟩
      have hbrace : Screens (lead ++ [o]) := (Screens.single (by rw [ho]; decide)).append_left lead
      have hfirst := h.unseen (lead ++ [o]) (within ++ r) rest (by simp) hbrace
      simpa using hfirst

theorem Passage.comp {mid : List Token} (h : Passage R ts mid) (h' : Passage S mid r) :
    Passage (Comp R S) ts r := by
  obtain ⟨first, rfl, hfirst⟩ := h
  obtain ⟨second, rfl, hsecond⟩ := h'
  exact ⟨first ++ second, (List.append_assoc ..).symm, hfirst.comp hsecond⟩

theorem Stretch.mono {used : List Token} (h : Stretch R used r) (hRS : ∀ ts r, R ts r → S ts r) :
    Stretch S used r where
  holds := hRS _ _ h.holds
  unseen := fun shown hidden other hr hshown => hRS _ _ (h.unseen shown hidden other hr hshown)
  objects := by
    intro front o within hused ho
    obtain ⟨obj, r', hobj, hother⟩ := h.objects front o within hused ho
    exact ⟨obj, r', hobj, fun rest hrest => hRS _ _ (hother rest hrest)⟩

theorem Passage.mono (h : Passage R ts r) (hRS : ∀ ts r, R ts r → S ts r) : Passage S ts r := by
  obtain ⟨used, rfl, hused⟩ := h
  exact ⟨used, rfl, hused.mono hRS⟩

/-- A stretch without an opening brace. -/
theorem Passage.of_plain (used : List Token) (hplain : ∀ t ∈ used, t.kind ≠ .openBrace)
    (holds : R (used ++ r) r) (hunseen : ∀ shown hidden other, r = shown ++ hidden →
      Screens shown → R (used ++ (shown ++ other)) (shown ++ other)) :
    Passage R (used ++ r) r := by
  refine ⟨used, rfl, holds, hunseen, ?_⟩
  rintro front o within rfl ho
  exact absurd ho (hplain o (by simp))

/-- The single token `t`. -/
def Single (t : Token) (ts r : List Token) : Prop := ts = t :: r

theorem passage_single {t : Token} (ht : t.kind ≠ .openBrace) (r : List Token) :
    Passage (Single t) (t :: r) r :=
  Passage.of_plain [t] (by simpa using ht) rfl fun _ _ _ _ _ => rfl

/-- No token, but what comes next has to fit. -/
def Test (P : List Token → Prop) (ts r : List Token) : Prop := ts = r ∧ P r

theorem passage_test {P : List Token → Prop} (h : P ts)
    (hunseen : ∀ shown hidden other, ts = shown ++ hidden → Screens shown → P (shown ++ other)) :
    Passage (Test P) ts ts :=
  Passage.of_plain [] nofun ⟨rfl, h⟩ fun shown hidden other hts hshown =>
    ⟨rfl, hunseen shown hidden other hts hshown⟩

end Stretches

/-! ## Looking at the next tokens -/

/-- The tokens begin with tokens of these kinds. -/
def Shows (kinds : List Token.Kind) (ts : List Token) : Prop := kinds <+: ts.map Token.kind

section Looking

variable {kind : Token.Kind} {kinds : List Token.Kind} {t : Token}
  {ts us r shown hidden other : List Token}

@[simp] theorem shows_nil (ts : List Token) : Shows [] ts := List.nil_prefix

@[simp] theorem not_shows_nil : ¬ Shows (kind :: kinds) [] := fun h =>
  absurd h.length_le (Nat.not_succ_le_zero _)

@[simp] theorem shows_cons : Shows (kind :: kinds) (t :: ts) ↔ t.kind = kind ∧ Shows kinds ts := by
  unfold Shows
  rw [List.map_cons, List.cons_prefix_cons, eq_comm]

theorem shows_cons_iff : Shows (kind :: kinds) ts ↔
    ∃ t us, ts = t :: us ∧ t.kind = kind ∧ Shows kinds us := by
  cases ts with
  | nil => simp
  | cons t us => simp

/-- Whoever looks for other tokens does not look behind a brace, a semicolon or a comma. -/
theorem Screens.shows (h : Screens shown)
    (hkinds : ∀ k ∈ [.openBrace, .semicolon, .comma], k ∉ kinds) :
    Shows kinds (shown ++ other) ↔ Shows kinds shown := by
  unfold Shows
  rw [List.map_append]
  refine ⟨fun hshows => ?_, fun hshows => hshows.trans (List.prefix_append ..)⟩
  refine (List.prefix_or_prefix_of_prefix hshows (List.prefix_append ..)).resolve_right ?_
  intro hlonger
  obtain ⟨t, ht, hkind⟩ := h
  exact hkinds t.kind hkind (hlonger.mem (List.mem_map_of_mem ht))

theorem passage_shows (kinds : List Token.Kind)
    (hkinds : ∀ k ∈ [.openBrace, .semicolon, .comma], k ∉ kinds) (ts : List Token) :
    Passage (Test fun us => Shows kinds us ↔ Shows kinds ts) ts ts := by
  refine passage_test Iff.rfl ?_
  rintro shown hidden other rfl hshown
  exact (hshown.shows hkinds).trans (hshown.shows hkinds).symm

theorem startsWith_iff_shows : startsWith kind ts = true ↔ Shows [kind] ts := by
  cases ts <;> simp

theorem eatAll?_eq_none : eatAll? kinds ts = none ↔ ¬ Shows kinds ts := by
  induction kinds generalizing ts with
  | nil => simp [eatAll?]
  | cons kind kinds ih =>
    cases ts with
    | nil => simp [eatAll?, eat?]
    | cons t ts =>
      by_cases ht : t.kind = kind
      · rw [eatAll?_cons ht, ih, shows_cons, and_iff_right ht]
      · simp [eatAll?, eat?, ht]

theorem passage_eatAll?_some (hkinds : .openBrace ∉ kinds) (h : eatAll? kinds ts = some r) :
    Passage (eatAll? kinds · = some ·) ts r := by
  obtain ⟨used, hused, rfl⟩ := eatAll?_eq_some.mp h
  refine Passage.of_plain used (fun t ht hkind => hkinds ?_) h fun shown _ other _ _ =>
    eatAll?_eq_some.mpr ⟨used, hused, rfl⟩
  rw [← hused, ← hkind]
  exact List.mem_map_of_mem ht

/-- Tokens that may be skipped, and what is skipped without them. -/
theorem passage_getD_eatAll? {f : List Token → List Token}
    (hkinds : ∀ k ∈ [.openBrace, .semicolon, .comma], k ∉ kinds)
    (hf : Passage (fun ts r => f ts = r) ts (f ts)) :
    Passage (fun ts r => (eatAll? kinds ts).getD (f ts) = r) ts
      ((eatAll? kinds ts).getD (f ts)) := by
  cases h : eatAll? kinds ts with
  | none =>
    refine ((passage_shows kinds hkinds ts).comp hf).mono ?_
    rintro us r ⟨_, ⟨rfl, hus⟩, hr⟩
    rw [eatAll?_eq_none.mpr (hus.not.mpr (eatAll?_eq_none.mp h))]
    exact hr
  | some r =>
    refine (passage_eatAll?_some (hkinds _ List.mem_cons_self) h).mono fun us r hus => ?_
    rw [hus]
    rfl

theorem passage_startsWith {b : Bool} (h : startsWith kind ts = b) :
    Passage (Test (startsWith kind · = b)) ts ts := by
  refine passage_test h ?_
  rintro shown hidden other rfl hshown
  rwa [startsWith_append hshown.ne_nil] at h ⊢

/-- Only the next token is looked at. -/
theorem passage_head {P : Token → Prop} (ht : P t) (ts : List Token) :
    Passage (Test fun us => ∃ u vs, us = u :: vs ∧ P u) (t :: ts) (t :: ts) := by
  refine passage_test ⟨t, ts, rfl, ht⟩ fun shown hidden other hts hshown => ?_
  obtain ⟨us, -, rfl⟩ := cons_eq_append hts hshown.ne_nil
  exact ⟨t, us ++ other, rfl, ht⟩

theorem passage_opensList {b : Bool}
    (h : (startsWith .openParen ts || startsWith .openAngle ts) = b) :
    Passage (Test fun us => (startsWith .openParen us || startsWith .openAngle us) = b) ts ts := by
  refine ((passage_startsWith (Eq.refl (startsWith .openParen ts))).comp
    (passage_startsWith (Eq.refl (startsWith .openAngle ts)))).mono ?_
  rintro us _ ⟨_, ⟨rfl, hparen⟩, rfl, hangle⟩
  refine ⟨rfl, ?_⟩
  show (startsWith .openParen us || startsWith .openAngle us) = b
  rw [hparen, hangle, h]

theorem passage_skip (hkind : kind ≠ .openBrace) (ts : List Token) :
    Passage (fun ts r => skip kind ts = r) ts (skip kind ts) := by
  cases h : eat? kind ts with
  | none =>
    have hstays : ∀ us, startsWith kind us = false → skip kind us = us := by
      intro us hus
      rw [skip, eat?_eq_none.mpr hus]
      rfl
    rw [hstays ts (eat?_eq_none.mp h)]
    refine (passage_startsWith (eat?_eq_none.mp h)).mono ?_
    rintro us _ ⟨rfl, hus⟩
    exact hstays us hus
  | some r =>
    obtain ⟨t, ht, rfl⟩ := eat?_eq_some.mp h
    have hskip : ∀ r, skip kind (t :: r) = r := fun r => by rw [skip, eat?_cons ht]; rfl
    rw [hskip]
    refine (passage_single (by rwa [ht]) r).mono ?_
    rintro _ r rfl
    exact hskip r

theorem passage_skipVariance (ts : List Token) :
    Passage (fun ts r => skipVariance ts = r) ts (skipVariance ts) := by
  cases h : eat? .plus ts with
  | none =>
    have hminus : ∀ us, startsWith .plus us = false → skipVariance us = skip .minus us := by
      intro us hus
      rw [skipVariance, eat?_eq_none.mpr hus]
    rw [hminus ts (eat?_eq_none.mp h)]
    refine ((passage_startsWith (eat?_eq_none.mp h)).comp (passage_skip (by decide) ts)).mono ?_
    rintro us r ⟨_, ⟨rfl, hus⟩, rfl⟩
    exact hminus us hus
  | some r =>
    obtain ⟨t, ht, rfl⟩ := eat?_eq_some.mp h
    have hskip : ∀ r, skipVariance (t :: r) = r := fun r => by rw [skipVariance, eat?_cons ht]
    rw [hskip]
    refine (passage_single (by rw [ht]; decide) r).mono ?_
    rintro _ r rfl
    exact hskip r

theorem passage_segments {name id : String} (h : segments name ts = .ok (id, r)) :
    Passage (fun ts r => segments name ts = .ok (id, r)) ts r := by
  have hdone : ∀ {name : String} {ts : List Token}, startsWith .dot ts = false →
      (.ok (name, ts) : Except Unexpected _) = .ok (id, r) →
      Passage (fun ts r => segments name ts = .ok (id, r)) ts r := by
    rintro name ts hts ⟨⟩
    refine (passage_startsWith hts).mono ?_
    rintro us _ ⟨rfl, hus⟩
    exact segments_of_noDot id hus
  fun_induction segments name ts with
  | case1 name d t ts hd => exact hdone (by simpa using hd) h
  | case2 name d t ts hd ht ih =>
    have hdot : d.kind = .dot := by simpa using hd
    refine ((passage_single (t := d) (by rw [hdot]; decide) _).comp
      ((passage_single (t := t) (by rw [ht]; decide) _).comp (ih h))).mono ?_
    rintro us r ⟨_, rfl, _, rfl, hus⟩
    rw [segments, if_neg hd, if_pos ht, hus]
  | case3 => cases h
  | case4 => cases h
  | case5 name d hd => exact hdone (by simpa using hd) h
  | case6 name => exact hdone rfl h

theorem qualifiedName_cons (ht : t.kind = .identifier) (ts : List Token) :
    qualifiedName (t :: ts) = segments t.text ts :=
  congrArg (· >>= _) (identifier_eq_ok.mpr ⟨t, ht, rfl, rfl⟩ : identifier (t :: ts) = _)

theorem passage_arrays (x : TypeTerm) (ts : List Token) :
    Passage (fun us r => arrays x us = ((arrays x ts).1, r)) ts (arrays x ts).2 := by
  have hstays : ∀ {x : TypeTerm} {ts : List Token}, ¬ Shows [.openBracket, .closeBracket] ts →
      arrays x ts = (x, ts) := by
    intro x ts hts
    unfold arrays
    split
    · rw [if_neg (by simpa using hts)]
    · rfl
  have hdone : ∀ (x : TypeTerm) (ts : List Token), ¬ Shows [.openBracket, .closeBracket] ts →
      Passage (fun us r => arrays x us = ((arrays x ts).1, r)) ts (arrays x ts).2 := by
    intro x ts hts
    rw [hstays hts]
    refine (passage_shows [.openBracket, .closeBracket] (by decide) ts).mono ?_
    rintro us _ ⟨rfl, hus⟩
    exact hstays (hus.not.mpr hts)
  fun_induction arrays x ts with
  | case1 x o c ts hpair ih =>
    refine ((passage_single (t := o) (by rw [hpair.1]; decide) _).comp
      ((passage_single (t := c) (by rw [hpair.2]; decide) _).comp ih)).mono ?_
    rintro us r ⟨_, rfl, _, rfl, hus⟩
    rw [arrays, if_pos hpair, hus]
  | case2 x o c ts hpair =>
    have hnone := hdone x (o :: c :: ts) (by simpa using hpair)
    rwa [arrays, if_neg hpair] at hnone
  | case3 x ts hshort =>
    have hnone := hdone x ts fun hshows => by
      obtain ⟨o, us, rfl, -, hus⟩ := shows_cons_iff.mp hshows
      obtain ⟨c, vs, rfl, -, -⟩ := shows_cons_iff.mp hus
      exact hshort o c vs rfl
    rwa [arrays.eq_2 x ts hshort] at hnone

theorem unionBar?_eq_none_iff :
    unionBar? ts = none ↔ (Shows [.pipe] ts → Shows [.pipe, .closeBrace] ts) := by
  cases ts with
  | nil => simp [unionBar?, eat?]
  | cons t us =>
    by_cases ht : t.kind = .pipe
    · simp [unionBar?, eat?_cons ht, ht, startsWith_iff_shows]
    · simp [unionBar?, eat?, ht]

theorem passage_next?_none {joint : Joint} (h : joint.next? ts = none) :
    Passage (Test (joint.next? · = none)) ts ts := by
  cases joint with
  | intersection =>
    refine (passage_startsWith (eat?_eq_none.mp h)).mono ?_
    rintro us _ ⟨rfl, hus⟩
    exact ⟨rfl, eat?_eq_none.mpr hus⟩
  | union =>
    refine ((passage_shows [.pipe] (by decide) ts).comp
      (passage_shows [.pipe, .closeBrace] (by decide) ts)).mono ?_
    rintro us _ ⟨_, ⟨rfl, hbar⟩, rfl, hclose⟩
    exact ⟨rfl, unionBar?_eq_none_iff.mpr (by rwa [hbar, hclose, ← unionBar?_eq_none_iff])⟩

theorem passage_next?_some {joint : Joint} (h : joint.next? ts = some r) :
    Passage (joint.next? · = some ·) ts r := by
  cases joint with
  | intersection =>
    obtain ⟨t, ht, rfl⟩ := eat?_eq_some.mp h
    refine (passage_single (by rw [ht]; decide) r).mono ?_
    rintro _ r rfl
    exact eat?_cons ht r
  | union =>
    obtain ⟨hbar, hclose⟩ := Option.filter_eq_some_iff.mp h
    obtain ⟨t, ht, rfl⟩ := eat?_eq_some.mp hbar
    refine ((passage_single (t := t) (by rw [ht]; decide) r).comp
      (passage_startsWith (by simpa using hclose))).mono ?_
    rintro _ r ⟨_, rfl, rfl, hr⟩
    refine Option.filter_eq_some_iff.mpr ⟨eat?_cons ht _, ?_⟩
    rw [hr]
    rfl

theorem passage_skipIndexName (ts : List Token) :
    Passage (fun ts r => skipIndexName ts = r) ts (skipIndexName ts) := by
  have hnothing : Passage (fun us r => us = r) ts ts :=
    Passage.of_plain [] nofun rfl fun _ _ _ _ _ => rfl
  simp only [skipIndexName_eq]
  exact passage_getD_eatAll? (f := id) (by decide) hnothing

theorem passage_skipParamName (ts : List Token) :
    Passage (fun ts r => skipParamName ts = r) ts (skipParamName ts) := by
  simp only [skipParamName_eq]
  exact passage_getD_eatAll? (by decide) (passage_skipIndexName ts)

theorem passage_spreadEnds {b : Bool} (h : spreadEnds ts = b) :
    Passage (Test (spreadEnds · = b)) ts ts := by
  refine passage_test h ?_
  rintro shown hidden other rfl hshown
  cases shown with
  | nil => exact absurd rfl hshown.ne_nil
  | cons t us => exact h

theorem objectEnd?_eq_none {exact' : Bool} : objectEnd? exact' ts = none ↔
    ¬ Shows (if exact' then [.pipe, .closeBrace] else [.closeBrace]) ts := by
  rw [objectEnd?_eq, eatAll?_eq_none]

theorem passage_objectEnd? (exact' : Bool) (ts : List Token) :
    Passage (Test fun us => (objectEnd? exact' us).isSome = (objectEnd? exact' ts).isSome)
      ts ts := by
  refine (passage_shows (if exact' then [.pipe, .closeBrace] else [.closeBrace])
    (by cases exact' <;> decide) ts).mono ?_
  rintro us _ ⟨rfl, hus⟩
  refine ⟨rfl, Bool.eq_iff_iff.mpr ?_⟩
  rw [Option.isSome_iff_ne_none, Option.isSome_iff_ne_none, Ne, Ne, objectEnd?_eq_none,
    objectEnd?_eq_none, hus]

theorem passage_objectEnd?_some {exact' : Bool} (h : objectEnd? exact' ts = some r) :
    Passage (objectEnd? exact' · = some ·) ts r := by
  simp only [objectEnd?_eq] at h ⊢
  exact passage_eatAll?_some (by cases exact' <;> decide) h

theorem passage_memberEnd {exact' : Bool} (h : memberEnd exact' ts = .ok r) :
    Passage (memberEnd exact' · = .ok ·) ts r := by
  unfold memberEnd at h
  split at h
  · rename_i r hsemicolon
    cases h
    obtain ⟨t, ht, rfl⟩ := eat?_eq_some.mp hsemicolon
    refine (passage_single (by rw [ht]; decide) _).mono ?_
    rintro _ r rfl
    rw [memberEnd, eat?_cons ht]
  · rename_i r hsemicolon hcomma
    cases h
    obtain ⟨t, ht, rfl⟩ := eat?_eq_some.mp hcomma
    have hnone : ∀ r, eat? .semicolon (t :: r) = none := by
      intro r
      rw [eat?_eq_none, startsWith_cons, ht]
      rfl
    refine (passage_single (by rw [ht]; decide) _).mono ?_
    rintro _ r rfl
    rw [memberEnd, hnone, eat?_cons ht]
  · rename_i us hsemicolon hcomma hend
    cases h
    refine ((passage_startsWith (eat?_eq_none.mp hsemicolon)).comp
      ((passage_startsWith (eat?_eq_none.mp hcomma)).comp (passage_objectEnd? exact' ts))).mono ?_
    rintro us _ ⟨_, ⟨rfl, hus⟩, _, ⟨rfl, hus'⟩, rfl, hends⟩
    rw [hend, Option.isSome_some] at hends
    obtain ⟨vs, hvs⟩ := Option.isSome_iff_exists.mp hends
    rw [memberEnd, eat?_eq_none.mpr hus, eat?_eq_none.mpr hus', hvs]
  · cases h

end Looking
/-! ## Phrases -/

theorem closer_ne_openBrace (b : Bracket) : b.closer ≠ .openBrace := by cases b <;> decide

theorem ne_openBrace_of_key? {t : Token} {key : String} (h : key? t = some key) :
    t.kind ≠ .openBrace := by
  intro ht
  rw [key?, ht] at h
  cases h

/-- An object type is one that stands at its own brace, and it can be exchanged for another one. -/
theorem passage_object {R : List Token → List Token → Prop} {o : Token} {ts r : List Token}
    {obj : TypeTerm} (h : Passage R ts r)
    (hR : ∀ ts r, R ts r → Reads .primary (o :: ts) obj r) :
    Passage (Reads .primary · obj ·) (o :: ts) r := by
  obtain ⟨used, rfl, hused⟩ := h
  refine ⟨o :: used, rfl, hR _ _ hused.holds, ?_, ?_⟩
  · intro shown hidden other hr hshown
    exact hR _ _ (hused.unseen shown hidden other hr hshown)
  · intro front b within hfront hb
    cases front with
    | nil =>
      cases hfront
      exact ⟨obj, r, hR _ _ hused.holds, fun rest hrest => hrest⟩
    | cons u front =>
      cases hfront
      obtain ⟨inner, r', hinner, hother⟩ := hused.objects front b within rfl hb
      exact ⟨inner, r', hinner, fun rest hrest => hR _ _ (hother rest hrest)⟩

/-- Every phrase is read so that the object types in it can be exchanged. -/
theorem Reads.passage {p : Phrase} {ts r : List Token} {x : p.Value} (h : Reads p ts x r) :
    Passage (Reads p · x ·) ts r := by
  induction h with
  | term _ _ ihfirst ihrest =>
    refine ((passage_skip (by decide) _).comp (ihfirst.comp ihrest)).mono ?_
    rintro ts r ⟨_, rfl, _, hfirst, hrest⟩
    exact .term hfirst hrest
  | conjunct _ _ ihfirst ihrest =>
    refine ((passage_skip (by decide) _).comp (ihfirst.comp ihrest)).mono ?_
    rintro ts r ⟨_, rfl, _, hfirst, hrest⟩
    exact .conjunct hfirst hrest
  | noMore h =>
    refine (passage_next?_none h).mono ?_
    rintro ts _ ⟨rfl, h⟩
    exact .noMore h
  | moreUnion h _ _ ihx ihxs =>
    refine ((passage_next?_some h).comp (ihx.comp ihxs)).mono ?_
    rintro ts r ⟨_, h, _, hx, hxs⟩
    exact .moreUnion h hx hxs
  | moreIntersection h _ _ ihx ihxs =>
    refine ((passage_next?_some h).comp (ihx.comp ihxs)).mono ?_
    rintro ts r ⟨_, h, _, hx, hxs⟩
    exact .moreIntersection h hx hxs
  | nullable ht _ ihx =>
    refine ((passage_single (by rw [ht]; decide) _).comp ihx).mono ?_
    rintro _ r ⟨_, rfl, hx⟩
    exact .nullable ht hx
  | @suffixed ts r x h _ ihx =>
    refine ((passage_startsWith h).comp (ihx.comp (passage_arrays x r))).mono ?_
    rintro us _ ⟨_, ⟨rfl, h⟩, vs, hx, harrays⟩
    have hread := Reads.suffixed h hx
    rwa [harrays] at hread
  | @object t ts r ms ht _ ihms =>
    refine passage_object ((passage_startsWith (Eq.refl (startsWith .pipe ts))).comp
      ((passage_skip (by decide) ts).comp ihms)) ?_
    rintro us r ⟨_, ⟨rfl, hexact⟩, _, rfl, hms⟩
    rw [← hexact] at hms ⊢
    exact .object ht hms
  | tuple ht _ ihxs =>
    refine ((passage_single (by rw [ht]; decide) _).comp ihxs).mono ?_
    rintro _ r ⟨_, rfl, hxs⟩
    exact .tuple ht hxs
  | group ht _ hc hr ihx =>
    refine ((passage_single (by rw [ht]; decide) _).comp (ihx.comp
      ((passage_single (by rw [hc]; decide) _).comp (passage_startsWith hr)))).mono ?_
    rintro _ _ ⟨_, rfl, _, hx, _, rfl, rfl, hr⟩
    exact .group ht hx hc hr
  | functionType ht _ ihx =>
    refine ((passage_head (P := fun t => t.kind = .openParen ∨ t.kind = .openAngle) ht _).comp
      ihx).mono ?_
    rintro _ r ⟨_, ⟨rfl, t, us, rfl, ht⟩, hx⟩
    exact .functionType ht hx
  | stringLiteral ht =>
    refine (passage_single (by rw [ht]; decide) _).mono ?_
    rintro _ r rfl
    exact .stringLiteral ht
  | numberLiteral ht =>
    refine (passage_single (by rw [ht]; decide) _).mono ?_
    rintro _ r rfl
    exact .numberLiteral ht
  | negativeLiteral ht hn =>
    refine ((passage_single (by rw [ht]; decide) _).comp
      (passage_single (by rw [hn]; decide) _)).mono ?_
    rintro _ r ⟨_, rfl, rfl⟩
    exact .negativeLiteral ht hn
  | existential ht =>
    refine (passage_single (by rw [ht]; decide) _).mono ?_
    rintro _ r rfl
    exact .existential ht
  | word ht hx =>
    refine (passage_single (by rw [ht]; decide) _).mono ?_
    rintro _ r rfl
    exact .word ht hx
  | typeOf ht htext hid =>
    obtain ⟨⟨name, us⟩, hname, hsegments⟩ := bind_eq_ok.mp hid
    obtain ⟨n, hn, rfl, rfl⟩ := identifier_eq_ok.mp hname
    refine ((passage_single (by rw [ht]; decide) _).comp
      ((passage_single (by rw [hn]; decide) _).comp (passage_segments hsegments))).mono ?_
    rintro _ r ⟨_, rfl, _, rfl, hsegments⟩
    exact .typeOf ht htext ((qualifiedName_cons hn _).trans hsegments)
  | named ht hword htext hid hr =>
    rw [qualifiedName_cons ht] at hid
    refine ((passage_single (by rw [ht]; decide) _).comp
      ((passage_segments hid).comp (passage_startsWith hr))).mono ?_
    rintro _ _ ⟨_, rfl, _, hid, rfl, hr⟩
    exact .named ht hword htext ((qualifiedName_cons ht _).trans hid) hr
  | applied ht hword htext hid ho _ ihargs =>
    rw [qualifiedName_cons ht] at hid
    refine ((passage_single (by rw [ht]; decide) _).comp ((passage_segments hid).comp
      ((passage_single (by rw [ho]; decide) _).comp ihargs))).mono ?_
    rintro _ r ⟨_, rfl, _, hid, _, rfl, hargs⟩
    exact .applied ht hword htext ((qualifiedName_cons ht _).trans hid) ho hargs
  | @noItems b item c ts hc =>
    refine (passage_single (by rw [hc]; exact closer_ne_openBrace b) _).mono ?_
    rintro _ r rfl
    exact .noItems hc
  | @lastItem b item c ts r x hitem h _ hc ihx =>
    refine ((passage_startsWith h).comp (ihx.comp
      (passage_single (by rw [hc]; exact closer_ne_openBrace b) _))).mono ?_
    rintro us r ⟨_, ⟨rfl, h⟩, _, hx, rfl⟩
    exact .lastItem hitem h hx hc
  | item hitem h _ hc _ ihx ihxs =>
    refine ((passage_startsWith h).comp (ihx.comp
      ((passage_single (by rw [hc]; decide) _).comp ihxs))).mono ?_
    rintro us r ⟨_, ⟨rfl, h⟩, _, hx, _, rfl, hxs⟩
    exact .item hitem h hx hc hxs
  | notBehind hkind h =>
    refine (passage_startsWith h).mono ?_
    rintro us _ ⟨rfl, h⟩
    exact .notBehind hkind h
  | @behind kind t ts r x hkind ht _ ihx =>
    have hplain : t.kind ≠ .openBrace := by
      rw [ht]
      rcases hkind with rfl | rfl <;> decide
    refine ((passage_single hplain _).comp ihx).mono ?_
    rintro _ r ⟨_, rfl, hx⟩
    exact .behind hkind ht hx
  | @typeParam ts r r' r'' id hid _ _ ihbound ihdefault =>
    obtain ⟨n, hn, rfl, hname⟩ := identifier_eq_ok.mp hid
    have hvariance := passage_skipVariance ts
    rw [hname] at hvariance
    refine (hvariance.comp ((passage_single (by rw [hn]; decide) _).comp
      (ihbound.comp ihdefault))).mono ?_
    rintro us r ⟨_, hvariance, _, rfl, _, hbound, hdefault⟩
    exact .typeParam (identifier_eq_ok.mpr ⟨n, hn, rfl, hvariance⟩) hbound hdefault
  | noTypeParams h =>
    refine (passage_startsWith h).mono ?_
    rintro us _ ⟨rfl, h⟩
    exact .noTypeParams h
  | typeParams ht _ ihids =>
    refine ((passage_single (by rw [ht]; decide) _).comp ihids).mono ?_
    rintro _ r ⟨_, rfl, hids⟩
    exact .typeParams ht hids
  | param _ ihx =>
    refine ((passage_skip (by decide) _).comp ((passage_skipParamName _).comp ihx)).mono ?_
    rintro us r ⟨_, rfl, _, rfl, hx⟩
    exact .param hx
  | @function separator o s ts r r' r'' ids params returns hseparator _ ho _ hs _ ihids ihparams
      ihreturns =>
    have hplain : s.kind ≠ .openBrace := by
      rw [hs]
      rcases hseparator with rfl | rfl <;> decide
    refine (ihids.comp ((passage_single (by rw [ho]; decide) _).comp (ihparams.comp
      ((passage_single hplain _).comp ihreturns)))).mono ?_
    rintro us r ⟨_, hids, _, rfl, _, hparams, _, rfl, hreturns⟩
    exact .function hseparator hids ho hparams hs hreturns
  | bareSpread ht h =>
    refine ((passage_single (by rw [ht]; decide) _).comp (passage_spreadEnds h)).mono ?_
    rintro _ _ ⟨_, rfl, rfl, h⟩
    exact .bareSpread ht h
  | spread ht h _ ihx =>
    refine ((passage_single (by rw [ht]; decide) _).comp
      ((passage_spreadEnds h).comp ihx)).mono ?_
    rintro _ r ⟨_, rfl, _, ⟨rfl, h⟩, hx⟩
    exact .spread ht h hx
  | indexer ht _ hc hd _ ihk ihx =>
    refine ((passage_single (by rw [ht]; decide) _).comp ((passage_skipIndexName _).comp
      (ihk.comp ((passage_single (by rw [hc]; decide) _).comp
        ((passage_single (by rw [hd]; decide) _).comp ihx))))).mono ?_
    rintro _ r ⟨_, rfl, _, rfl, _, hk, _, rfl, _, rfl, hx⟩
    exact .indexer ht hk hc hd hx
  | call ht _ ihx =>
    refine ((passage_head (P := fun t => t.kind = .openParen ∨ t.kind = .openAngle) ht _).comp
      ihx).mono ?_
    rintro _ r ⟨_, ⟨rfl, t, us, rfl, ht⟩, hx⟩
    exact .call ht hx
  | @method t k ts r r' key x ht hk hkey h _ ihx =>
    have hvariance := passage_skipVariance (t :: ts)
    rw [hk] at hvariance
    refine ((passage_head (P := fun t => t.kind ∉ [.ellipsis, .openBracket, .openParen, .openAngle])
      ht ts).comp (hvariance.comp ((passage_single (ne_openBrace_of_key? hkey) r).comp
        ((passage_opensList h).comp ihx)))).mono ?_
    rintro _ r ⟨_, ⟨rfl, t, us, rfl, ht⟩, _, hk, _, rfl, _, ⟨rfl, h⟩, hx⟩
    exact .method ht hk hkey h hx
  | @property t k c ts r r' r'' key x ht hk hkey h hc hcolon _ ihx =>
    have hvariance := passage_skipVariance (t :: ts)
    have hquestion := passage_skip (by decide : Token.Kind.question ≠ .openBrace) r
    rw [hk] at hvariance
    rw [hc] at hquestion
    refine ((passage_head (P := fun t => t.kind ∉ [.ellipsis, .openBracket, .openParen, .openAngle])
      ht ts).comp (hvariance.comp ((passage_single (ne_openBrace_of_key? hkey) r).comp
        ((passage_opensList h).comp ((passage_startsWith (Eq.refl (startsWith .question r))).comp
          (hquestion.comp ((passage_single (by rw [hcolon]; decide) r').comp ihx))))))).mono ?_
    rintro _ _ ⟨_, ⟨rfl, t, us, rfl, ht⟩, _, hk, _, rfl, _, ⟨rfl, h⟩, _, ⟨rfl, hoptional⟩, _, hc, _,
      rfl, hx⟩
    rw [← hoptional]
    exact .property ht hk hkey h hc hcolon hx
  | noMembers h =>
    refine (passage_objectEnd?_some h).mono ?_
    rintro us r h
    exact .noMembers h
  | @members exact' ts r r' r'' m ms h _ hend _ ihm ihms =>
    refine ((passage_objectEnd? exact' ts).comp
      (ihm.comp ((passage_memberEnd hend).comp ihms))).mono ?_
    rintro us r ⟨_, ⟨rfl, hnone⟩, _, hm, _, hend, hms⟩
    rw [h, Option.isSome_none, Option.isSome_eq_false_iff, Option.isNone_iff_eq_none] at hnone
    exact .members hnone hm hend hms

end AliasCheck
