import AliasCheck.Proofs.Statements

/-!
# Bounds that are large enough

The readers count down a bound. It is there for the recursion only: as soon as it is not smaller
than the number of tokens, no result depends on it, be it a value or an error. For each reader this
follows its definition. Two readers for whole terms that are alike up to `n` tokens give the same
when they are put into a form, because in front of every term that is read inside a form stands a
token of the form, and because loops take a token in each round. `term_congr` ties the knot, so that
`term` satisfies the equation of a recursion that is not bounded, `union_eq_term`.
-/

namespace AliasCheck
namespace Grammar

open AliasCheck.Bracket

/-! ## Loops -/

section Loops

theorem length_of_eat? {kind : Token.Kind} {ts us : List Token} (h : eat? kind ts = some us) :
    us.length + 1 = ts.length := by
  obtain ⟨t, -, rfl⟩ := eat?_eq_some.mp h
  rfl

/-- A reader of phrases that have a token fails if there is none. -/
theorem nil_eq_error {p : Phrase} {f : Reader p.Value} {n : Nat} (hf : Agrees p f n)
    (hleast : p.least = 1) : ∃ e, f [] = .error e := by
  cases h : f [] with
  | error e => exact ⟨e, rfl⟩
  | ok a =>
    have hlen := ((hf [] (Nat.zero_le n) a.1 a.2).mp h).length_lt hleast
    exact absurd hlen (Nat.not_lt_zero _)

theorem itemsUntil_congr (close : Token.Kind) {p : Phrase} {f g : Reader p.Value} {n m : Nat}
    {ts : List Token} (hf : Agrees p f n) (hleast : p.least = 1)
    (heq : ∀ us : List Token, us.length ≤ n → f us = g us) (hm : n ≤ m) (hts : ts.length ≤ n) :
    itemsUntil close f n ts = itemsUntil close g m ts := by
  induction n generalizing m ts with
  | zero =>
    cases List.length_eq_zero_iff.mp (Nat.le_zero.mp hts)
    obtain ⟨e, he⟩ := nil_eq_error hf hleast
    have hg : g [] = .error e := (heq [] (Nat.le_refl 0)).symm.trans he
    cases m with
    | zero => rw [itemsUntil, itemsUntil, he, hg]
    | succ m =>
      rw [itemsUntil, itemsUntil, he, hg]
      rfl
  | succ n ih =>
    cases m with
    | zero => exact absurd hm (Nat.not_succ_le_zero n)
    | succ m =>
      rw [itemsUntil, itemsUntil]
      cases eat? close ts with
      | some us => rfl
      | none =>
        refine bind_congr_ok (heq ts hts) ?_
        rintro ⟨x, us⟩ hx
        have hlen := ((hf ts hts x us).mp hx).length_le
        cases hcomma : eat? .comma us with
        | none => simp only [hcomma]
        | some vs =>
          have hvs := length_of_eat? hcomma
          have hrest : itemsUntil close f n vs = itemsUntil close g m vs :=
            ih (hf.mono (Nat.le_succ n)) (fun us hus => heq us (Nat.le_succ_of_le hus))
              (Nat.le_of_succ_le_succ hm) (by omega)
          simp only [hcomma, hrest]

theorem separated_congr {next? : List Token → Option (List Token)} {f g : Reader TypeTerm}
    {n m : Nat} {ts : List Token} (hnext : ∀ us vs, next? us = some vs → vs.length < us.length)
    (hf : ∀ us : List Token, us.length ≤ n → ∀ a, f us = .ok a → a.2.length ≤ us.length)
    (heq : ∀ us : List Token, us.length ≤ n → f us = g us) (hm : n ≤ m) (hts : ts.length ≤ n) :
    separated next? f n ts = separated next? g m ts := by
  induction n generalizing m ts with
  | zero =>
    cases List.length_eq_zero_iff.mp (Nat.le_zero.mp hts)
    have hnone : next? [] = none := by
      cases h : next? [] with
      | none => rfl
      | some vs => exact absurd (hnext [] vs h) (Nat.not_lt_zero _)
    cases m with
    | zero => rfl
    | succ m => rw [separated, separated, hnone]
  | succ n ih =>
    cases m with
    | zero => exact absurd hm (Nat.not_succ_le_zero n)
    | succ m =>
      rw [separated, separated]
      cases hmore : next? ts with
      | none => rfl
      | some us =>
        have hus := hnext ts us hmore
        refine bind_congr_ok (heq us (by omega)) ?_
        rintro ⟨x, vs⟩ hx
        have hvs : vs.length ≤ us.length := hf us (by omega) _ hx
        have hrest : separated next? f n vs = separated next? g m vs :=
          ih (fun us hus => hf us (Nat.le_succ_of_le hus))
            (fun us hus => heq us (Nat.le_succ_of_le hus)) (Nat.le_of_succ_le_succ hm) (by omega)
        simp only [hrest]

section Joined

variable (joint : Joint) {part part' : Reader TypeTerm} {n m : Nat} {ts : List Token}
  (hpart : ∀ us : List Token, us.length ≤ n + 1 →
    ∀ x r, part us = .ok (x, r) ↔ ReadsPart joint us x r)
  (heq : ∀ us : List Token, us.length ≤ n + 1 → part us = part' us) (hm : n ≤ m)

include hpart heq hm

/-- Further parts behind operators. -/
theorem moreParts_congr (hts : ts.length ≤ n) :
    separated joint.next? part n ts = separated joint.next? part' m ts := by
  refine separated_congr (fun us vs h => (passes_next? h).length_le) (fun us hus a ha => ?_)
    (fun us hus => heq us (Nat.le_succ_of_le hus)) hm hts
  exact Nat.le_of_lt ((hpart us (Nat.le_succ_of_le hus) a.1 a.2).mp ha).length_lt

theorem joined_congr (hts : ts.length ≤ n + 1) :
    joined joint part n ts = joined joint part' m ts := by
  have hskip := length_skip_operator_le joint ts
  refine bind_congr_ok (heq _ (by omega)) ?_
  rintro ⟨first, us⟩ hfirst
  have hus := ((hpart _ (by omega) first us).mp hfirst).length_lt
  exact bind_congr_ok (moreParts_congr joint hpart heq hm (by omega)) fun _ _ => rfl

end Joined

end Loops

/-! ## Forms of terms -/

section Forms

variable {term term' : Reader TypeTerm} {n m : Nat} {ts : List Token}
  (hterm : Agrees .term term n) (heq : ∀ us : List Token, us.length ≤ n → term us = term' us)

include hterm heq

omit hterm in
theorem termAfter_congr (kind : Token.Kind) (hts : ts.length ≤ n) :
    termAfter term kind ts = termAfter term' kind ts := by
  unfold termAfter
  cases h : eat? kind ts with
  | none => rfl
  | some us =>
    obtain ⟨t, -, rfl⟩ := eat?_eq_some.mp h
    simp only [heq us (Nat.le_of_succ_le hts)]

theorem typeParam_congr (hts : ts.length ≤ n) : typeParam term ts = typeParam term' ts := by
  have hskip := (passes_skipVariance ts).length_le
  refine bind_congr_ok rfl ?_
  rintro ⟨name, us⟩ hname
  have hus := (passes_identifier hname).length_le
  refine bind_congr_ok (termAfter_congr heq .colon (by omega)) fun vs hvs => ?_
  have hvs := ((termAfter_eq_ok hterm (.inl rfl) (by omega)).mp hvs).length_le
  exact bind_congr_ok (termAfter_congr heq .equals (by omega)) fun _ _ => rfl

omit hterm in
theorem param_congr (hts : ts.length ≤ n) : param term ts = param term' ts := by
  have hskip := (passes_skip .ellipsis rfl rfl ts).length_le
  have hname := (passes_skipParamName (skip .ellipsis ts)).length_le
  exact heq _ (by omega)

theorem indexer_congr (hts : ts.length ≤ n) : indexer term ts = indexer term' ts := by
  have hskip := (passes_skipIndexName ts).length_le
  refine bind_congr_ok (heq _ (by omega)) ?_
  rintro ⟨k, us⟩ hk
  have hus := ((hterm _ (by omega) k us).mp hk).length_le
  refine bind_congr_ok rfl fun vs hvs => ?_
  obtain ⟨c, -, rfl⟩ := expect_eq_ok.mp hvs
  refine bind_congr_ok rfl fun ws hws => ?_
  obtain ⟨d, -, rfl⟩ := expect_eq_ok.mp hws
  simp only [List.length_cons] at hus
  exact bind_congr_ok (heq ws (by omega)) fun _ _ => rfl

variable (hm : n ≤ m)

include hm

theorem typeParams_congr (hts : ts.length ≤ n + 1) :
    typeParams term n ts = typeParams term' m ts := by
  refine bind_congr_ok rfl fun us hus => ?_
  obtain ⟨t, -, rfl⟩ := expect_eq_ok.mp hus
  exact itemsUntil_congr .closeAngle (agrees_typeParam hterm) rfl
    (fun us hus => typeParam_congr hterm heq hus) hm (Nat.le_of_succ_le_succ hts)

theorem optionalTypeParams_congr (hts : ts.length ≤ n + 1) :
    optionalTypeParams term n ts = optionalTypeParams term' m ts := by
  unfold optionalTypeParams
  rw [typeParams_congr hterm heq hm hts]

theorem functionWith_congr (separator : Token.Kind) (hts : ts.length ≤ n + 1) :
    functionWith term n separator ts = functionWith term' m separator ts := by
  refine bind_congr_ok (optionalTypeParams_congr hterm heq hm hts) ?_
  rintro ⟨ids, us⟩ hids
  have hus := ((agrees_typeParams hterm ts hts ids us).mp hids).length_le
  refine bind_congr_ok rfl fun vs hvs => ?_
  obtain ⟨o, -, rfl⟩ := expect_eq_ok.mp hvs
  rw [List.length_cons] at hus
  have hparams := itemsUntil_congr .closeParen (agrees_param hterm) rfl
    (fun us hus => param_congr heq hus) hm (by omega : vs.length ≤ n)
  refine bind_congr_ok hparams ?_
  rintro ⟨params, ws⟩ hws
  have hws := ((agrees_itemsUntil .paren rfl rfl (agrees_param hterm) vs (by omega) _ _).mp
    hws).length_le
  refine bind_congr_ok rfl fun zs hzs => ?_
  obtain ⟨s, -, rfl⟩ := expect_eq_ok.mp hzs
  rw [List.length_cons] at hws
  exact bind_congr_ok (heq zs (by omega)) fun _ _ => rfl

theorem parenthesised_congr (hts : ts.length ≤ n + 1) :
    parenthesised term n ts = parenthesised term' m ts := by
  unfold parenthesised function
  rw [functionWith_congr hterm heq hm .arrow hts]
  split
  · rfl
  · refine bind_congr_ok rfl fun us hus => ?_
    obtain ⟨o, -, rfl⟩ := expect_eq_ok.mp hus
    exact bind_congr_ok (heq us (Nat.le_of_succ_le_succ hts)) fun _ _ => rfl

theorem tuple_congr (hts : ts.length ≤ n + 1) : tuple term n ts = tuple term' m ts := by
  refine bind_congr_ok rfl fun us hus => ?_
  obtain ⟨o, -, rfl⟩ := expect_eq_ok.mp hus
  have hitems := itemsUntil_congr .closeBracket hterm rfl heq hm (Nat.le_of_succ_le_succ hts)
  exact bind_congr_ok hitems fun _ _ => rfl

theorem name_congr (hts : ts.length ≤ n + 1) : name term n ts = name term' m ts := by
  cases ts with
  | nil => rfl
  | cons t ts =>
    rw [name, name]
    split
    · rfl
    · split
      · rfl
      · refine bind_congr_ok rfl ?_
        rintro ⟨id, us⟩ hid
        have hus := (passes_qualifiedName hid).length_le
        cases hangle : eat? .openAngle us with
        | none => simp only [hangle]
        | some vs =>
          have hvs := length_of_eat? hangle
          have hargs := itemsUntil_congr .closeAngle hterm rfl heq hm (by omega : vs.length ≤ n)
          simp only [hangle, hargs]

theorem keyedMember_congr (hts : ts.length ≤ n + 1) :
    keyedMember term n ts = keyedMember term' m ts := by
  cases ts with
  | nil => rfl
  | cons t ts =>
    have hlen := Nat.le_of_succ_le_succ hts
    rw [keyedMember, keyedMember]
    split
    · rfl
    · have hmethod : method term n ts = method term' m ts :=
        functionWith_congr hterm heq hm .colon (Nat.le_succ_of_le hlen)
      rw [hmethod]
      split
      · rfl
      · have hskip := (passes_skip .question rfl rfl ts).length_le
        refine bind_congr_ok rfl fun us hus => ?_
        obtain ⟨c, -, hc⟩ := expect_eq_ok.mp hus
        rw [hc, List.length_cons] at hskip
        exact bind_congr_ok (heq us (by omega)) fun _ _ => rfl

theorem member_congr (hts : ts.length ≤ n + 1) : member term n ts = member term' m ts := by
  cases ts with
  | nil => rfl
  | cons t ts =>
    have hlen := Nat.le_of_succ_le_succ hts
    have hmethod : method term n (t :: ts) = method term' m (t :: ts) :=
      functionWith_congr hterm heq hm .colon hts
    have hskip := (passes_skipVariance (t :: ts)).length_le
    rw [member, member, heq ts hlen, indexer_congr hterm heq hlen, hmethod,
      keyedMember_congr hterm heq hm (by omega : (skipVariance (t :: ts)).length ≤ n + 1)]

omit hm in
theorem members_congr (exact' : Bool) (hm : n ≤ m) (hts : ts.length ≤ n) :
    members term exact' n ts = members term' exact' m ts := by
  induction n generalizing m ts with
  | zero =>
    cases List.length_eq_zero_iff.mp (Nat.le_zero.mp hts)
    cases m with
    | zero => rfl
    | succ m => cases exact' <;> rfl
  | succ n ih =>
    have hterm := hterm.mono (Nat.le_succ n)
    have heq := fun us hus => heq us (Nat.le_succ_of_le hus)
    cases m with
    | zero => exact absurd hm (Nat.not_succ_le_zero n)
    | succ m =>
      have hm := Nat.le_of_succ_le_succ hm
      rw [members, members]
      split
      · rfl
      · split
        · rfl
        · refine bind_congr_ok (member_congr hterm heq hm hts) ?_
          rintro ⟨x, us⟩ hx
          have hus := ((agrees_member hterm ts hts x us).mp hx).length_lt rfl
          refine bind_congr_ok rfl fun vs hvs => ?_
          have hvs := (passes_memberEnd hvs).length_le
          exact bind_congr_ok (ih hterm heq hm (by omega)) fun _ _ => rfl

theorem object_congr (hts : ts.length ≤ n + 1) : object term n ts = object term' m ts := by
  refine bind_congr_ok rfl fun us hus => ?_
  obtain ⟨o, -, rfl⟩ := expect_eq_ok.mp hus
  have hlen := Nat.le_of_succ_le_succ hts
  have hskip := (passes_skip .pipe rfl rfl us).length_le
  have hmembers := members_congr hterm heq (startsWith .pipe us) hm
    (by omega : (skip .pipe us).length ≤ n)
  exact bind_congr_ok hmembers fun _ _ => rfl

/-! ## Terms by strength of binding -/

theorem primary_congr (hts : ts.length ≤ n + 1) : primary term n ts = primary term' m ts := by
  cases ts with
  | nil => rfl
  | cons t ts =>
    have hfunction : function term n (t :: ts) = function term' m (t :: ts) :=
      functionWith_congr hterm heq hm .arrow hts
    unfold primary
    rw [object_congr hterm heq hm hts, tuple_congr hterm heq hm hts,
      parenthesised_congr hterm heq hm hts, hfunction, name_congr hterm heq hm hts]

theorem suffixed_congr (hts : ts.length ≤ n + 1) : suffixed term n ts = suffixed term' m ts :=
  bind_congr_ok (primary_congr hterm heq hm hts) fun _ _ => rfl

theorem nullable_congr (hts : ts.length ≤ n + 1) : nullable term n ts = nullable term' m ts := by
  induction ts with
  | nil => exact suffixed_congr hterm heq hm hts
  | cons t ts ih =>
    rw [nullable, nullable, ih (Nat.le_of_succ_le hts), suffixed_congr hterm heq hm hts]

theorem intersection_congr (hts : ts.length ≤ n + 1) :
    intersection term n ts = intersection term' m ts :=
  joined_congr .intersection (agrees_nullable hterm)
    (fun _ hus => nullable_congr hterm heq hm hus) hm hts

theorem union_congr (hts : ts.length ≤ n + 1) : union term n ts = union term' m ts :=
  joined_congr .union (agrees_intersection hterm)
    (fun _ hus => intersection_congr hterm heq hm hus) hm hts

end Forms

/-! ## The recursion -/

section Recursion

variable {bound : Nat} {ts : List Token}

theorem term_nil (bound : Nat) : term bound [] = unexpected .typeTerm [] := by
  cases bound <;> rfl

/-- All bounds that are not smaller than the number of tokens give the same term or error. -/
theorem term_eq (h : ts.length ≤ bound) : term bound ts = term ts.length ts := by
  have hall : ∀ (n m : Nat) (us : List Token), n ≤ m → us.length ≤ n → term n us = term m us := by
    intro n
    induction n with
    | zero =>
      intro m us _ hus
      cases List.length_eq_zero_iff.mp (Nat.le_zero.mp hus)
      rw [term_nil, term_nil]
    | succ n ih =>
      rintro (_ | m) us hle hus
      · exact absurd hle (Nat.not_succ_le_zero n)
      · have hle := Nat.le_of_succ_le_succ hle
        exact union_congr (agrees_term n) (fun vs hvs => ih m vs hle hvs) hle hus
  exact (hall ts.length bound ts h (Nat.le_refl _)).symm

/-- The readers for whole terms with two bounds, as they are put into the forms. -/
theorem term_congr {n m : Nat} (hm : n ≤ m) : ∀ us : List Token, us.length ≤ n →
    term n us = term m us :=
  fun _ hus => (term_eq hus).trans (term_eq (Nat.le_trans hus hm)).symm

/-- The recursion of the grammar without a bound: a term is a union of terms, and whatever reads the
terms inside a union is asked only about shorter lists than the union itself. -/
theorem union_eq_term {inner : Reader TypeTerm} (h : ts.length ≤ bound + 1)
    (hinner : ∀ us : List Token, us.length < ts.length → inner us = term us.length us) :
    union inner bound ts = term ts.length ts := by
  cases ts with
  | nil => rfl
  | cons t ts =>
    have hshorter : ∀ us : List Token, us.length ≤ ts.length → term ts.length us = inner us :=
      fun us hus => (term_eq hus).trans (hinner us (Nat.lt_succ_of_le hus)).symm
    exact (union_congr (agrees_term ts.length) hshorter (Nat.le_of_succ_le_succ h)
      (Nat.le_refl _)).symm

/-! ## Statements -/

theorem declaration_eq (h : ts.length ≤ bound) :
    declaration bound ts = declaration ts.length ts := by
  have hterm := agrees_term ts.length
  have heq := term_congr h
  symm
  refine bind_congr_ok rfl ?_
  rintro ⟨name, us⟩ hname
  have hus := (passes_identifier hname).length_le
  refine bind_congr_ok (optionalTypeParams_congr hterm heq h (by omega)) ?_
  rintro ⟨params, vs⟩ hparams
  have hvs := ((agrees_typeParams hterm us (by omega) params vs).mp hparams).length_le
  refine bind_congr_ok rfl fun ws hws => ?_
  obtain ⟨e, -, rfl⟩ := expect_eq_ok.mp hws
  rw [List.length_cons] at hvs
  exact bind_congr_ok (heq ws (by omega)) fun _ _ => rfl

theorem statement_eq (h : ts.length ≤ bound) : statement bound ts = statement ts.length ts := by
  induction ts generalizing bound with
  | nil => rfl
  | cons t ts ih =>
    have hlen : ts.length ≤ (t :: ts).length := Nat.le_succ _
    have hbound := Nat.le_of_succ_le h
    rw [statement, statement, ih hbound, ih hlen, declaration_eq hbound, declaration_eq hlen]

theorem program_eq (h : ts.length ≤ bound) : program bound ts = program ts.length ts := by
  have hall : ∀ (n m : Nat) (us : List Token), n ≤ m → us.length ≤ n →
      program n us = program m us := by
    intro n
    induction n with
    | zero =>
      intro m us _ hus
      cases List.length_eq_zero_iff.mp (Nat.le_zero.mp hus)
      cases m <;> rfl
    | succ n ih =>
      rintro (_ | m) us hle hus
      · exact absurd hle (Nat.not_succ_le_zero n)
      · cases us with
        | nil => rfl
        | cons t us =>
          have hle' := Nat.le_of_succ_le_succ hle
          rw [program, program, ih m us hle' (Nat.le_of_succ_le_succ hus)]
          split
          · rfl
          · refine bind_congr_ok
              ((statement_eq hus).trans (statement_eq (Nat.le_trans hus hle)).symm) ?_
            rintro ⟨s, r⟩ hs
            have hr := ((statement_eq_ok (List.cons_ne_nil t us) hus).mp hs).length_lt
            rw [List.length_cons] at hus hr
            exact bind_congr_ok (ih m r hle' (by omega)) fun _ _ => rfl
  exact (hall ts.length bound ts h (Nat.le_refl _)).symm

end Recursion

end Grammar
end AliasCheck
