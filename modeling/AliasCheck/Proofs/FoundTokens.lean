import AliasCheck.Proofs.Statements

/-!
# The tokens that readers stop at

A reader goes through its tokens from left to right and never looks back. What it leaves is the end
of the tokens that it was given, and if it fails, what it found is the first token of such an end or
the end of all of them. Both are one statement, `Stops`, which goes through a chain of readers, so
each reader is treated by following its definition.
-/

namespace AliasCheck

open AliasCheck.Bracket

namespace Grammar

variable {α β : Type}

/-- The result is that of a reader that has come to an end of `ts`: it leaves that end, which is
`rest` of what it returns, or it needs something else there. -/
def Stops (rest : β → List Token) (ts : List Token) (result : Except Unexpected β) : Prop :=
  match result with
  | .ok b => rest b <:+ ts
  | .error u => ∃ r, r <:+ ts ∧ u.found = r.head?

/-- The reader only ever goes on in its tokens. -/
def GoesOn (f : Reader α) : Prop := ∀ ts, Stops Prod.snd ts (f ts)

section

variable {rest : α → List Token} {rest' : β → List Token} {ts us : List Token}
  {x : Except Unexpected α} {f : Reader α} {kind : Token.Kind}

theorem stops_ok {a : α} (h : rest a <:+ ts) : Stops rest ts (.ok a) := h

theorem Stops.mono (h : Stops rest us x) (hus : us <:+ ts) : Stops rest ts x := by
  cases x with
  | ok a => exact List.IsSuffix.trans h hus
  | error u =>
    obtain ⟨r, hr, hfound⟩ := h
    exact ⟨r, hr.trans hus, hfound⟩

theorem Stops.bind {g : α → Except Unexpected β} (hx : Stops rest ts x)
    (hg : ∀ a, Stops rest' (rest a) (g a)) : Stops rest' ts (x >>= g) := by
  cases x with
  | ok a => exact (hg a).mono hx
  | error u => exact hx

theorem Stops.map (h : Stops rest ts x) : Stops id ts (x.map rest) := by
  cases x with
  | ok a => exact h
  | error u => exact h

theorem GoesOn.suffix (hf : GoesOn f) {a : α} (h : f ts = .ok (a, us)) : us <:+ ts := by
  have hstops := hf ts
  rw [h] at hstops
  exact hstops

theorem stops_unexpected (expected : Expected) (ts : List Token) :
    Stops rest ts (unexpected expected ts) :=
  ⟨ts, List.suffix_rfl, rfl⟩

theorem suffix_of_passes {least : Nat} {pending : List Bracket}
    (h : Passes isCode least pending ts us) : us <:+ ts := by
  obtain ⟨used, hts, -⟩ := h
  exact ⟨used, hts.symm⟩

theorem suffix_of_eat? (h : eat? kind ts = some us) : us <:+ ts := by
  obtain ⟨t, -, rfl⟩ := eat?_eq_some.mp h
  exact List.suffix_cons t us

theorem skip_suffix (kind : Token.Kind) (ts : List Token) : skip kind ts <:+ ts := by
  unfold skip
  cases h : eat? kind ts with
  | none => exact List.suffix_rfl
  | some us => exact suffix_of_eat? h

/-! ## Tokens, lists and names -/

theorem stops_expect (kind : Token.Kind) (ts : List Token) : Stops id ts (expect kind ts) := by
  unfold expect
  cases h : eat? kind ts with
  | none => exact stops_unexpected _ ts
  | some us => exact suffix_of_eat? h

theorem goesOn_identifier : GoesOn identifier := by
  rintro (_ | ⟨t, ts⟩)
  · exact stops_unexpected _ []
  · rw [identifier]
    split
    · exact List.suffix_cons t ts
    · exact stops_unexpected _ _

theorem goesOn_itemsUntil (close : Token.Kind) (hf : GoesOn f) (bound : Nat) :
    GoesOn (itemsUntil close f bound) := by
  induction bound with
  | zero =>
    intro ts
    exact (hf ts).bind fun _ => stops_ok List.suffix_rfl
  | succ bound ih =>
    intro ts
    rw [itemsUntil]
    cases hclose : eat? close ts with
    | some us => exact suffix_of_eat? hclose
    | none =>
      refine (hf ts).bind ?_
      rintro ⟨x, us⟩
      cases hcomma : eat? .comma us with
      | some vs =>
        simp only [hcomma]
        exact ((ih vs).mono (suffix_of_eat? hcomma)).bind fun _ => stops_ok List.suffix_rfl
      | none =>
        simp only [hcomma]
        exact (stops_expect close us).bind fun _ => stops_ok List.suffix_rfl

theorem goesOn_separated {next? : List Token → Option (List Token)}
    (hnext : ∀ {ts us}, next? ts = some us → us <:+ ts) (hf : GoesOn f) (bound : Nat) :
    GoesOn (separated next? f bound) := by
  induction bound with
  | zero => exact fun ts => List.suffix_rfl
  | succ bound ih =>
    intro ts
    rw [separated]
    cases hmore : next? ts with
    | none => exact List.suffix_rfl
    | some us =>
      refine ((hf us).bind ?_).mono (hnext hmore)
      rintro ⟨x, vs⟩
      exact (ih vs).bind fun _ => stops_ok List.suffix_rfl

theorem suffix_of_next? {joint : Joint} {ts us : List Token} (h : joint.next? ts = some us) :
    us <:+ ts :=
  suffix_of_passes (passes_next? h : Passes isCode 1 [] ts us)

section Joined

variable (joint : Joint) {part : Reader TypeTerm} (hpart : GoesOn part) (bound : Nat)

include hpart

theorem goesOn_moreParts : GoesOn (separated joint.next? part bound) :=
  goesOn_separated suffix_of_next? hpart bound

theorem goesOn_joined : GoesOn (joined joint part bound) := by
  intro ts
  refine ((hpart _).bind fun a => ?_).mono (skip_suffix joint.operator ts)
  exact (goesOn_moreParts joint hpart bound a.2).bind fun _ => stops_ok List.suffix_rfl

end Joined

theorem goesOn_segments (name : String) : GoesOn (segments name) := by
  intro ts
  fun_induction segments name ts with
  | case1 => exact List.suffix_rfl
  | case2 name d t ts _ _ ih =>
    exact Stops.mono ih ((List.suffix_cons t ts).trans (List.suffix_cons d (t :: ts)))
  | case3 name d t ts => exact (stops_unexpected _ _).mono (List.suffix_cons d _)
  | case4 name d => exact (stops_unexpected _ []).mono List.nil_suffix
  | case5 => exact List.suffix_rfl
  | case6 => exact List.suffix_rfl

theorem goesOn_qualifiedName : GoesOn qualifiedName := fun ts =>
  (goesOn_identifier ts).bind fun a => goesOn_segments a.1 a.2

/-! ## Forms of terms -/

section Forms

variable {term : Reader TypeTerm} (hterm : GoesOn term) (bound : Nat)

include hterm

theorem stops_termAfter (kind : Token.Kind) (ts : List Token) :
    Stops id ts (termAfter term kind ts) := by
  unfold termAfter
  cases h : eat? kind ts with
  | none => exact stops_ok List.suffix_rfl
  | some us => exact ((hterm us).mono (suffix_of_eat? h)).bind fun _ => stops_ok List.suffix_rfl

theorem goesOn_typeParam : GoesOn (typeParam term) := by
  intro ts
  refine ((goesOn_identifier _).bind fun a => ?_).mono (suffix_of_passes (passes_skipVariance ts))
  refine (stops_termAfter hterm .colon a.2).bind fun us => ?_
  exact (stops_termAfter hterm .equals us).bind fun _ => stops_ok List.suffix_rfl

theorem goesOn_typeParams : GoesOn (typeParams term bound) := fun ts =>
  (stops_expect .openAngle ts).bind (goesOn_itemsUntil _ (goesOn_typeParam hterm) bound)

theorem goesOn_optionalTypeParams : GoesOn (optionalTypeParams term bound) := by
  intro ts
  unfold optionalTypeParams
  split
  · exact goesOn_typeParams hterm bound ts
  · exact stops_ok List.suffix_rfl

theorem goesOn_param : GoesOn (param term) := fun ts =>
  (hterm _).mono ((suffix_of_passes (passes_skipParamName _)).trans (skip_suffix .ellipsis ts))

theorem goesOn_functionWith (separator : Token.Kind) :
    GoesOn (functionWith term bound separator) := by
  intro ts
  refine (goesOn_optionalTypeParams hterm bound ts).bind fun a => ?_
  refine (stops_expect .openParen a.2).bind fun us => ?_
  refine (goesOn_itemsUntil .closeParen (goesOn_param hterm) bound us).bind fun params => ?_
  refine (stops_expect separator params.2).bind fun vs => ?_
  exact (hterm vs).bind fun _ => stops_ok List.suffix_rfl

theorem goesOn_parenthesised : GoesOn (parenthesised term bound) := by
  intro ts
  unfold parenthesised
  split
  · exact goesOn_functionWith hterm bound .arrow ts
  · refine (stops_expect .openParen ts).bind fun us => ?_
    refine (hterm us).bind fun inner => ?_
    exact (stops_expect .closeParen inner.2).bind fun _ => stops_ok List.suffix_rfl

theorem goesOn_tuple : GoesOn (tuple term bound) := by
  intro ts
  refine (stops_expect .openBracket ts).bind fun us => ?_
  exact (goesOn_itemsUntil .closeBracket hterm bound us).bind fun _ => stops_ok List.suffix_rfl

theorem goesOn_name : GoesOn (name term bound) := by
  rintro (_ | ⟨t, ts⟩)
  · exact stops_unexpected _ []
  · rw [name]
    split
    · exact stops_ok (List.suffix_cons t ts)
    · split
      · exact ((goesOn_qualifiedName ts).mono (List.suffix_cons t ts)).bind fun _ =>
          stops_ok List.suffix_rfl
      · refine (goesOn_qualifiedName (t :: ts)).bind ?_
        rintro ⟨id, us⟩
        cases hangle : eat? .openAngle us with
        | none =>
          simp only [hangle]
          exact stops_ok List.suffix_rfl
        | some vs =>
          simp only [hangle]
          have hargs := goesOn_itemsUntil .closeAngle hterm bound vs
          exact (hargs.mono (suffix_of_eat? hangle)).bind fun _ => stops_ok List.suffix_rfl

theorem stops_indexer (ts : List Token) : Stops id ts (indexer term ts) := by
  unfold indexer
  refine ((hterm _).bind fun a => ?_).mono (suffix_of_passes (passes_skipIndexName ts))
  refine (stops_expect .closeBracket a.2).bind fun us => ?_
  refine (stops_expect .colon us).bind fun vs => ?_
  exact (hterm vs).bind fun _ => stops_ok List.suffix_rfl

theorem goesOn_keyedMember : GoesOn (keyedMember term bound) := by
  rintro (_ | ⟨t, ts⟩)
  · exact stops_unexpected _ []
  · have htail := List.suffix_cons t ts
    rw [keyedMember]
    split
    · exact stops_unexpected _ _
    · split
      · exact ((goesOn_functionWith hterm bound .colon ts).mono htail).bind fun _ =>
          stops_ok List.suffix_rfl
      · refine ((stops_expect .colon _).bind fun us => ?_).mono
          ((skip_suffix .question ts).trans htail)
        exact (hterm us).bind fun _ => stops_ok List.suffix_rfl

theorem goesOn_member : GoesOn (member term bound) := by
  rintro (_ | ⟨t, ts⟩)
  · exact stops_unexpected _ []
  · have htail := List.suffix_cons t ts
    rw [member]
    split
    · split
      · exact stops_ok htail
      · exact ((hterm ts).mono htail).bind fun _ => stops_ok List.suffix_rfl
    · exact ((stops_indexer hterm ts).mono htail).bind fun _ => stops_ok List.suffix_rfl
    · exact (goesOn_functionWith hterm bound .colon _).bind fun _ => stops_ok List.suffix_rfl
    · exact (goesOn_functionWith hterm bound .colon _).bind fun _ => stops_ok List.suffix_rfl
    · have hsign := suffix_of_passes (passes_skipVariance (t :: ts))
      exact ((goesOn_keyedMember hterm bound _).mono hsign).bind fun _ => stops_ok List.suffix_rfl

omit hterm in
theorem stops_memberEnd (exact' : Bool) (ts : List Token) :
    Stops id ts (memberEnd exact' ts) := by
  cases h : memberEnd exact' ts with
  | ok us => exact suffix_of_passes (passes_memberEnd h)
  | error u =>
    unfold memberEnd at h
    split at h
    iterate 3 cases h
    rw [← h]
    exact stops_unexpected _ ts

theorem goesOn_members (exact' : Bool) : GoesOn (members term exact' bound) := by
  induction bound with
  | zero => exact stops_unexpected _
  | succ bound ih =>
    intro ts
    rw [members]
    split
    · rename_i us hend
      exact stops_ok (suffix_of_passes (passes_objectEnd? hend))
    · split
      · exact stops_unexpected _ ts
      · refine (goesOn_member hterm bound ts).bind fun a => ?_
        refine (stops_memberEnd exact' a.2).bind fun us => ?_
        exact (ih us).bind fun _ => stops_ok List.suffix_rfl

theorem goesOn_object : GoesOn (object term bound) := by
  intro ts
  refine (stops_expect .openBrace ts).bind fun us => ?_
  exact ((goesOn_members hterm bound _ _).mono (skip_suffix .pipe us)).bind fun _ =>
    stops_ok List.suffix_rfl

theorem goesOn_primary : GoesOn (primary term bound) := by
  rintro (_ | ⟨t, ts⟩)
  · exact stops_unexpected _ []
  · have htail := List.suffix_cons t ts
    unfold primary
    dsimp only
    split
    · exact goesOn_object hterm bound _
    · exact goesOn_tuple hterm bound _
    · exact goesOn_parenthesised hterm bound _
    · exact goesOn_functionWith hterm bound .arrow _
    · exact stops_ok htail
    · exact stops_ok htail
    · split
      · rename_i n more
        split
        · exact stops_ok ((List.suffix_cons n more).trans htail)
        · exact stops_unexpected _ _
      · exact stops_unexpected _ _
    · exact goesOn_name hterm bound _
    · exact stops_ok htail
    · exact stops_unexpected _ _

theorem goesOn_suffixed : GoesOn (suffixed term bound) := fun ts =>
  (goesOn_primary hterm bound ts).bind fun a =>
    stops_ok (suffix_of_passes (passes_arrays a.1 a.2))

theorem goesOn_nullable : GoesOn (nullable term bound) := by
  intro ts
  have hsuffixed := goesOn_suffixed hterm bound
  induction ts with
  | nil => exact hsuffixed []
  | cons t ts ih =>
    rw [nullable]
    split
    · exact (ih.mono (List.suffix_cons t ts)).bind fun _ => stops_ok List.suffix_rfl
    · exact hsuffixed _

theorem goesOn_intersection : GoesOn (intersection term bound) :=
  goesOn_joined .intersection (goesOn_nullable hterm bound) bound

theorem goesOn_union : GoesOn (union term bound) :=
  goesOn_joined .union (goesOn_intersection hterm bound) bound

end Forms

theorem goesOn_term (bound : Nat) : GoesOn (term bound) := by
  induction bound with
  | zero => exact stops_unexpected _
  | succ bound ih => exact goesOn_union ih bound

theorem goesOn_declaration (bound : Nat) : GoesOn (declaration bound) := by
  intro ts
  refine (goesOn_identifier ts).bind fun name => ?_
  refine (goesOn_optionalTypeParams (goesOn_term bound) bound name.2).bind fun params => ?_
  refine (stops_expect .equals params.2).bind fun us => ?_
  exact (goesOn_term bound us).bind fun body => stops_ok (skip_suffix .semicolon body.2)

/-! ## Programs -/

theorem goesOn_statement (bound : Nat) : GoesOn (statement bound) := by
  intro ts
  induction ts with
  | nil => exact stops_ok List.suffix_rfl
  | cons t ts ih =>
    have htail := List.suffix_cons t ts
    rw [statement]
    split
    · exact (ih.mono htail).bind fun _ => stops_ok List.suffix_rfl
    · split
      · exact stops_ok ((skipStatement_suffix true 0 ts).trans htail)
      · split
        · exact ((goesOn_declaration bound ts).mono htail).bind fun _ => stops_ok List.suffix_rfl
        · exact stops_ok (skipStatement_suffix true 0 (t :: ts))

theorem stops_program (bound : Nat) (ts : List Token) :
    Stops (fun _ => []) ts (program bound ts) := by
  induction bound generalizing ts with
  | zero => exact stops_ok List.nil_suffix
  | succ bound ih =>
    cases ts with
    | nil => exact stops_ok List.suffix_rfl
    | cons t ts =>
      rw [program]
      split
      · exact (ih ts).mono (List.suffix_cons t ts)
      · refine (goesOn_statement (bound + 1) (t :: ts)).bind fun a => ?_
        exact (ih a.2).bind fun _ => stops_ok List.suffix_rfl

end

end Grammar
end AliasCheck
