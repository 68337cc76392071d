import AliasCheck.Proofs.Brackets

/-!
# Brackets that belong together

Here a grammar says in which lists of tokens brackets nest: a list is put together of tokens that
are no brackets and of groups, and between the brackets of a group there is such a list again. It
describes the lists that a stack of open brackets goes through and ends empty on (`nested_iff`).

Two brackets of any list belong together if what stands between them nests. An opening bracket of a
list that nests has a partner, and no opening bracket of any list has two. Wherever a list that
nests stands among other tokens, its brackets have no partners outside of it.
-/

namespace AliasCheck
namespace Bracket

variable {counts : Bracket → Bool}

/-- All kinds of brackets. -/
def isAny : Bracket → Bool := fun _ => true

/-- The token opens a bracket of this kind, and brackets of this kind count. -/
structure Opens (counts : Bracket → Bool) (b : Bracket) (t : Token) : Prop where
  counts : counts b = true
  opens : t.kind.opens? = some b

/-- The token closes a bracket of this kind, and brackets of this kind count. -/
structure Closes (counts : Bracket → Bool) (b : Bracket) (t : Token) : Prop where
  counts : counts b = true
  closes : t.kind.closes? = some b

/-- The token is no bracket that counts. -/
structure IsPlain (counts : Bracket → Bool) (t : Token) : Prop where
  not_opens : ∀ b, ¬ Opens counts b t
  not_closes : ∀ b, ¬ Closes counts b t

/-- Every bracket is closed, by one of its kind, and groups do not overlap. -/
inductive Nested (counts : Bracket → Bool) : List Token → Prop where
  | nil : Nested counts []
  | plain {t : Token} {ts : List Token} (ht : IsPlain counts t) (hts : Nested counts ts) :
      Nested counts (t :: ts)
  | group {b : Bracket} {o c : Token} {inner ts : List Token} (ho : Opens counts b o)
      (hinner : Nested counts inner) (hc : Closes counts b c) (hts : Nested counts ts) :
      Nested counts (o :: (inner ++ c :: ts))

/-! ## Steps of the stack -/

section Steps

variable {b : Bracket} {stack next : List Bracket} {t : Token}

theorem Closes.opens?_eq_none (h : Closes counts b t) : t.kind.opens? = none := by
  have hcloses := h.closes
  cases hkind : t.kind <;> simp_all [Token.Kind.opens?, Token.Kind.closes?]

theorem Opens.not_closes (h : Opens counts b t) {b' : Bracket} : ¬ Closes counts b' t := by
  intro h'
  cases h'.opens?_eq_none.symm.trans h.opens

theorem opens_or_closes_or_isPlain (counts : Bracket → Bool) (t : Token) :
    (∃ b, Opens counts b t) ∨ (∃ b, Closes counts b t) ∨ IsPlain counts t := by
  by_cases ho : ∃ b, Opens counts b t
  · exact .inl ho
  · by_cases hc : ∃ b, Closes counts b t
    · exact .inr (.inl hc)
    · exact .inr (.inr ⟨not_exists.mp ho, not_exists.mp hc⟩)

theorem step_of_opens (h : Opens counts b t) (stack : List Bracket) :
    step counts stack t = some (b :: stack) := by
  simp [step, h.opens, h.counts]

theorem step_of_closes (h : Closes counts b t) :
    step counts stack t = some next ↔ stack = b :: next := by
  cases stack with
  | nil => simp [step, h.opens?_eq_none, h.closes, h.counts]
  | cons top stack => simp [step, h.opens?_eq_none, h.closes, h.counts]

theorem step_of_isPlain (h : IsPlain counts t) (stack : List Bracket) :
    step counts stack t = some stack := by
  unfold step
  split
  · rename_i b hopens
    rw [if_neg fun hb => h.not_opens b ⟨hb, hopens⟩]
  · rename_i b _ hcloses
    rw [if_neg fun hb => h.not_closes b ⟨hb, hcloses⟩]
  · rfl

end Steps

/-! ## The grammar and the stack -/

/-- Tokens that close the brackets of a stack, the last one first. -/
inductive Closing (counts : Bracket → Bool) : List Bracket → List Token → Prop where
  | nested {ts : List Token} (hts : Nested counts ts) : Closing counts [] ts
  | close {b : Bracket} {c : Token} {stack : List Bracket} {inner ts : List Token}
      (hinner : Nested counts inner) (hc : Closes counts b c) (hts : Closing counts stack ts) :
      Closing counts (b :: stack) (inner ++ c :: ts)

section Grammar

variable {b : Bracket} {c : Token} {stack : List Bracket} {inner ts : List Token}

/-- What may stand in front of any list that nests may also stand in front of what closes a
stack. -/
theorem Closing.append_left (h : Closing counts stack ts)
    (hinner : ∀ us, Nested counts us → Nested counts (inner ++ us)) :
    Closing counts stack (inner ++ ts) := by
  cases h with
  | nested hts => exact .nested (hinner ts hts)
  | close hts hc hrest =>
    rw [← List.append_assoc]
    exact .close (hinner _ hts) hc hrest

/-- What empties a stack closes its brackets one after the other. -/
theorem closing_of_openAfter (h : openAfter counts stack ts = some []) :
    Closing counts stack ts := by
  induction ts generalizing stack with
  | nil =>
    cases h
    exact .nested .nil
  | cons t ts ih =>
    rw [openAfter_cons, Option.bind_eq_some_iff] at h
    obtain ⟨next, hstep, hrest⟩ := h
    rcases opens_or_closes_or_isPlain counts t with ⟨b, ht⟩ | ⟨b, ht⟩ | ht
    · cases (step_of_opens ht stack).symm.trans hstep
      cases ih hrest with
      | @close _ c _ inner ts hinner hc hts =>
        have hgroup : Closing counts stack (t :: (inner ++ [c]) ++ ts) :=
          hts.append_left fun us hus => by simpa using Nested.group ht hinner hc hus
        simpa using hgroup
    · cases (step_of_closes ht).mp hstep
      exact .close .nil ht (ih hrest)
    · cases (step_of_isPlain ht stack).symm.trans hstep
      rw [← List.singleton_append]
      exact (ih hrest).append_left fun us hus => .plain ht hus

theorem Nested.balanced (h : Nested counts ts) : Balanced counts ts := by
  induction h with
  | nil => rfl
  | @plain t ts ht _ ih =>
    rw [Balanced, openAfter_cons, step_of_isPlain ht]
    exact ih
  | @group b o c inner ts ho _ hc _ hinner hts =>
    rw [Balanced, openAfter_cons, step_of_opens ho, Option.bind_some, openAfter_append,
      hinner.openAfter, Option.bind_some, openAfter_cons, (step_of_closes hc).mpr rfl]
    exact hts

/-- The lists in which brackets nest are those that a stack goes through and ends empty on. -/
theorem nested_iff : Nested counts ts ↔ Balanced counts ts := by
  refine ⟨Nested.balanced, fun h => ?_⟩
  cases closing_of_openAfter h with
  | nested hts => exact hts

theorem Nested.append {us : List Token} (h : Nested counts ts) (h' : Nested counts us) :
    Nested counts (ts ++ us) :=
  nested_iff.mpr (h.balanced.append h'.balanced)

/-- If brackets of all kinds nest, those of some kinds do. -/
theorem Nested.of_isAny (h : Nested isAny ts) : Nested counts ts := by
  induction h with
  | nil => exact .nil
  | plain ht _ ih =>
    exact .plain ⟨fun b ho => ht.not_opens b ⟨rfl, ho.opens⟩,
      fun b hc => ht.not_closes b ⟨rfl, hc.closes⟩⟩ ih
  | @group b o c inner ts ho _ hc _ hinner hts =>
    by_cases hb : counts b = true
    · exact .group ⟨hb, ho.opens⟩ hinner ⟨hb, hc.closes⟩ hts
    · have hplain_o : IsPlain counts o := by
        refine ⟨fun b' ho' => ?_, fun b' hc' => ho.not_closes ⟨rfl, hc'.closes⟩⟩
        cases ho.opens.symm.trans ho'.opens
        exact hb ho'.counts
      have hplain_c : IsPlain counts c := by
        refine ⟨fun b' ho' => ?_, fun b' hc' => ?_⟩
        · cases hc.opens?_eq_none.symm.trans ho'.opens
        · cases hc.closes.symm.trans hc'.closes
          exact hb hc'.counts
      exact .plain hplain_o (hinner.append (.plain hplain_c hts))

/-- In a list that nests, an opening bracket is closed by one of its kind. -/
theorem Nested.exists_close {o : Token} {before after : List Token}
    (h : Nested counts (before ++ o :: after)) (ho : Opens counts b o) :
    ∃ inner c rest, after = inner ++ c :: rest ∧ Nested counts inner ∧ Closes counts b c := by
  have hopen := h.balanced
  rw [Balanced, openAfter_append, Option.bind_eq_some_iff] at hopen
  obtain ⟨stack, -, hrest⟩ := hopen
  rw [openAfter_cons, step_of_opens ho, Option.bind_some] at hrest
  cases closing_of_openAfter hrest with
  | close hinner hc _ => exact ⟨_, _, _, rfl, hinner, hc⟩

/-- What comes before a closing bracket leaves a bracket open. -/
theorem Nested.not_nested_before {before after : List Token}
    (h : Nested counts (before ++ c :: after)) (hc : Closes counts b c) (more : List Token) :
    ¬ Nested counts (more ++ before) := by
  intro hmore
  have hopen := h.balanced
  rw [Balanced, openAfter_append, Option.bind_eq_some_iff] at hopen
  obtain ⟨stack, hbefore, hrest⟩ := hopen
  rw [openAfter_cons, Option.bind_eq_some_iff] at hrest
  obtain ⟨next, hstep, -⟩ := hrest
  cases (step_of_closes hc).mp hstep
  have hempty := hmore.balanced
  rw [Balanced, openAfter_append, Option.bind_eq_some_iff] at hempty
  obtain ⟨below, -, hend⟩ := hempty
  cases (openAfter_below hbefore below).symm.trans hend

/-- What comes behind an opening bracket closes a bracket that it does not open. -/
theorem Nested.not_nested_behind {o : Token} {before after : List Token}
    (h : Nested counts (before ++ o :: after)) (ho : Opens counts b o) (more : List Token) :
    ¬ Nested counts (after ++ more) := by
  intro hmore
  have hempty := hmore.balanced
  rw [Balanced, openAfter_append, Option.bind_eq_some_iff] at hempty
  obtain ⟨opened, hafter, -⟩ := hempty
  have hopen := h.balanced
  rw [Balanced, openAfter_append, Option.bind_eq_some_iff] at hopen
  obtain ⟨stack, -, hrest⟩ := hopen
  rw [openAfter_cons, step_of_opens ho, Option.bind_some] at hrest
  have hleft := (openAfter_below hafter (b :: stack)).symm.trans hrest
  exact List.append_ne_nil_of_right_ne_nil opened (List.cons_ne_nil b stack) (Option.some.inj hleft)

end Grammar

/-! ## Partners -/

/-- At the place `i` of a list stands an opening bracket, at the place `j` the closing bracket that
belongs to it: what stands between them nests. -/
inductive Matches (counts : Bracket → Bool) : List Token → (i j : Nat) → Prop where
  | intro {b : Bracket} {before inner after : List Token} {o c : Token} (ho : Opens counts b o)
      (hinner : Nested counts inner) (hc : Closes counts b c) :
      Matches counts (before ++ o :: (inner ++ c :: after)) before.length
        (before.length + 1 + inner.length)

section Partners

variable {tokens before used after : List Token} {o : Token} {b : Bracket} {i j k : Nat}

/-- A beginning of a list that is no longer than another one. -/
theorem exists_append_of_length_le {us vs : List Token} (h : before ++ us = vs ++ after)
    (hle : before.length ≤ vs.length) : ∃ more, vs = before ++ more ∧ us = more ++ after := by
  rcases List.append_eq_append_iff.mp h with hmore | ⟨cut, rfl, rfl⟩
  · exact hmore
  · rw [List.length_append] at hle
    cases List.length_eq_zero_iff.mp (by omega : cut.length = 0)
    exact ⟨[], by simp, rfl⟩

/-- A token in the middle part of a list, and what stands around it. -/
theorem exists_split {front rest : List Token} {t : Token}
    (h : front ++ t :: rest = before ++ (used ++ after)) (hle : before.length ≤ front.length)
    (hlt : front.length < before.length + used.length) :
    ∃ u v, front = before ++ u ∧ used = u ++ t :: v ∧ rest = v ++ after := by
  obtain ⟨u, rfl, hused⟩ := exists_append_of_length_le h.symm hle
  rw [← List.singleton_append, ← List.append_assoc] at hused
  rw [List.length_append] at hlt
  have hlen : (u ++ [t]).length ≤ used.length := by
    rw [List.length_append, List.length_singleton]
    omega
  obtain ⟨v, rfl, hrest⟩ := exists_append_of_length_le hused.symm hlen
  exact ⟨u, v, rfl, by rw [List.append_assoc, List.singleton_append], hrest⟩

theorem Matches.lt (h : Matches counts tokens i j) : i < j := by
  cases h
  omega

/-- What stands from two brackets on that belong together. -/
theorem Matches.exists_drop (h : Matches counts tokens i j) : ∃ b o inner c after,
    Opens counts b o ∧ Nested counts inner ∧ Closes counts b c ∧
      tokens.drop i = o :: (inner ++ c :: after) ∧ tokens.drop j = c :: after := by
  cases h with
  | @intro b before inner after o c ho hinner hc =>
    refine ⟨b, o, inner, c, after, ho, hinner, hc, List.drop_left, ?_⟩
    have hplace : before.length + 1 + inner.length = (before ++ o :: inner).length := by
      rw [List.length_append, List.length_cons]
      omega
    rw [hplace, ← List.cons_append, ← List.append_assoc, List.drop_left]

/-- No partner of an opening bracket comes behind another one. -/
theorem Matches.le (h : Matches counts tokens i j) (h' : Matches counts tokens i k) : k ≤ j := by
  generalize htokens : tokens = ts at h'
  cases h with
  | @intro b front inner rest o c _ hinner hc =>
    generalize hplace : front.length = place at h'
    cases h' with
    | @intro b' front' inner' rest' o' c' _ hinner' _ =>
      obtain ⟨rfl, hgroup⟩ := List.append_inj htokens hplace
      have hclose : (inner ++ [c]) ++ rest = inner' ++ c' :: rest' := by
        rw [List.append_assoc, List.singleton_append, (List.cons.inj hgroup).2]
      refine Decidable.byContradiction fun hlt => ?_
      have hlen : (inner ++ [c]).length ≤ inner'.length := by
        rw [List.length_append, List.length_singleton]
        omega
      obtain ⟨more, rfl, -⟩ := exists_append_of_length_le hclose hlen
      rw [List.append_assoc, List.singleton_append] at hinner'
      exact hinner'.not_nested_before hc [] hinner

theorem Matches.unique (h : Matches counts tokens i j) (h' : Matches counts tokens i k) : j = k :=
  Nat.le_antisymm (h'.le h) (h.le h')

/-- In a list that nests, an opening bracket has a partner, and only one. -/
theorem Nested.exists_matches (h : Nested counts tokens) (hi : tokens[i]? = some o)
    (ho : Opens counts b o) : ∃ j, ∀ k, Matches counts tokens i k ↔ k = j := by
  obtain ⟨hlt, rfl⟩ := List.getElem?_eq_some_iff.mp hi
  have hsplit : tokens = tokens.take i ++ tokens[i] :: tokens.drop (i + 1) := by simp
  rw [hsplit] at h
  obtain ⟨inner, c, rest, hrest, hinner, hc⟩ := h.exists_close ho
  rw [hrest] at hsplit
  have hmatch : Matches counts (tokens.take i ++ tokens[i] :: (inner ++ c :: rest))
      (tokens.take i).length ((tokens.take i).length + 1 + inner.length) := .intro ho hinner hc
  rw [← hsplit, List.length_take_of_le (Nat.le_of_lt hlt)] at hmatch
  exact ⟨_, fun k => ⟨fun hk => hk.unique hmatch, fun hk => hk ▸ hmatch⟩⟩

/-- Among other tokens, the brackets of a list that nests have their partners in this list. -/
theorem Nested.matches_within (h : Nested counts used)
    (hmatch : Matches counts (before ++ (used ++ after)) i j) :
    (before.length ≤ i ∧ i < before.length + used.length) ↔
      (before.length ≤ j ∧ j < before.length + used.length) := by
  have hij := hmatch.lt
  generalize htokens : before ++ (used ++ after) = tokens at hmatch
  cases hmatch with
  | @intro b front inner rest o c ho hinner hc =>
    constructor
    · rintro ⟨hle, hlt⟩
      obtain ⟨u, v, rfl, rfl, hrest⟩ := exists_split htokens.symm hle hlt
      refine ⟨by omega, Decidable.byContradiction fun hstop => ?_⟩
      have hlen : v.length ≤ inner.length := by
        simp only [List.length_append, List.length_cons] at hstop
        omega
      obtain ⟨more, rfl, -⟩ := exists_append_of_length_le hrest.symm hlen
      exact h.not_nested_behind ho more hinner
    · rintro ⟨hle, hlt⟩
      refine ⟨Decidable.byContradiction fun hstart => ?_, by omega⟩
      have hclose : (front ++ o :: inner) ++ c :: rest = before ++ (used ++ after) := by
        rw [htokens, List.append_assoc, List.cons_append]
      have hplace : (front ++ o :: inner).length = front.length + 1 + inner.length := by
        rw [List.length_append, List.length_cons]
        omega
      obtain ⟨u, v, hfront, rfl, -⟩ := exists_split hclose (hplace ▸ hle) (hplace ▸ hlt)
      rw [← List.singleton_append, ← List.append_assoc] at hfront
      have hlen : (front ++ [o]).length ≤ before.length := by
        rw [List.length_append, List.length_singleton]
        omega
      obtain ⟨more, -, rfl⟩ := exists_append_of_length_le hfront hlen
      exact h.not_nested_before hc more hinner

end Partners

end Bracket
end AliasCheck
