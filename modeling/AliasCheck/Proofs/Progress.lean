import AliasCheck.Proofs.FoundTokens
import AliasCheck.Proofs.SufficientBounds
import Mathlib.Logic.Relation

/-!
# How readers get ahead

Here reading is seen as the way of a cursor through the tokens of a source. What a reader leaves is
what stands behind some place, the place at which the cursor then is. No reader and none of the
smaller steps takes the cursor back or out of the tokens, whatever the tokens are. Each statement
takes it ahead, and so does each round of a loop inside a term after which there is another round,
so everything comes to an end: a program is read when the cursor is at the end of the tokens, or
some statement fails before.
-/

namespace AliasCheck

open Grammar

/-! ## Places -/

/-- The result is one that is come to with the cursor at `start` or behind it, and within the
tokens: what is left stands behind the cursor, or what has been found stands there. -/
def Lands (tokens : List Token) (start : Nat) : Except Unexpected (List Token) → Prop
  | .ok rest => ∃ pos, start ≤ pos ∧ pos ≤ tokens.length ∧ rest = tokens.drop pos
  | .error u => ∃ pos, start ≤ pos ∧ pos ≤ tokens.length ∧ u.found = tokens[pos]?

section Places

variable {tokens r : List Token} {start : Nat}

theorem exists_place (hstart : start ≤ tokens.length) (h : r <:+ tokens.drop start) :
    ∃ pos, start ≤ pos ∧ pos ≤ tokens.length ∧ r = tokens.drop pos := by
  have hlen := h.length_le
  rw [List.length_drop] at hlen
  have hr := List.suffix_iff_eq_drop.mp (h.trans (List.drop_suffix start tokens))
  exact ⟨tokens.length - r.length, by omega, Nat.sub_le _ _, hr⟩

/-- A reader that only goes on in its tokens stays in those of the source. -/
theorem lands_of_stops {x : Except Unexpected (List Token)} (hstart : start ≤ tokens.length)
    (h : Stops id (tokens.drop start) x) : Lands tokens start x := by
  cases x with
  | ok rest => exact exists_place hstart h
  | error u =>
    obtain ⟨r, hr, hfound⟩ := h
    obtain ⟨pos, hle, hlength, rfl⟩ := exists_place hstart hr
    exact ⟨pos, hle, hlength, hfound.trans List.head?_drop⟩

/-- What leaves fewer tokens has taken the cursor ahead. -/
theorem lands_of_length_lt (h : r <:+ tokens.drop start)
    (hlt : r.length < (tokens.drop start).length) : Lands tokens (start + 1) (.ok r) := by
  have hlen := hlt
  rw [List.length_drop] at hlen
  obtain ⟨pos, hle, hlength, rfl⟩ := exists_place (by omega) h
  rw [List.length_drop] at hlen
  exact ⟨pos, by omega, hlength, rfl⟩

end Places

namespace Grammar

/-! ## Loops -/

/-- The loops inside terms. -/
inductive Loop where
  | tupleItems
  | typeArguments
  | typeParams
  | params
  | members (exact : Bool)
  /-- Further terms that an operator joins. -/
  | joined (joint : Joint)

/-- What a round of a loop comes to. -/
inductive Round where
  /-- The loop is at its end, and these tokens are left. -/
  | closes (rest : List Token)
  /-- There is another round, from these tokens on. -/
  | goesOn (rest : List Token)

section Rounds

variable {α : Type}

/-- One round of a list of items. -/
def itemRound (close : Token.Kind) (item : Reader α) (ts : List Token) :
    Except Unexpected Round :=
  match eat? close ts with
  | some ts => .ok (.closes ts)
  | none => do
    let (_, ts) ← item ts
    match eat? .comma ts with
    | some ts => .ok (.goesOn ts)
    | none => do
      let ts ← expect close ts
      .ok (.closes ts)

/-- One round of terms behind operators. -/
def joinedRound (next? : List Token → Option (List Token)) (item : Reader α) (ts : List Token) :
    Except Unexpected Round :=
  match next? ts with
  | none => .ok (.closes ts)
  | some ts => do
    let (_, ts) ← item ts
    .ok (.goesOn ts)

/-- One round of the members of an object type. -/
def memberRound (exact : Bool) (item : Reader α) (ts : List Token) : Except Unexpected Round :=
  match objectEnd? exact ts with
  | some ts => .ok (.closes ts)
  | none =>
    if ts.isEmpty then unexpected (.token .closeBrace) ts
    else do
      let (_, ts) ← item ts
      let ts ← memberEnd exact ts
      .ok (.goesOn ts)

/-- The tokens that are left after a loop whose next round has this outcome. -/
def Round.next (again : List Token → Except Unexpected (List Token)) :
    Round → Except Unexpected (List Token)
  | closes rest => .ok rest
  | goesOn rest => again rest

end Rounds

namespace Loop

/-- The tokens that a loop leaves which has at most `size` rounds. -/
def read (bound size : Nat) (loop : Loop) (ts : List Token) : Except Unexpected (List Token) :=
  match loop with
  | tupleItems => (itemsUntil .closeBracket (term bound) size ts).map Prod.snd
  | typeArguments => (itemsUntil .closeAngle (term bound) size ts).map Prod.snd
  | typeParams => (itemsUntil .closeAngle (typeParam (term bound)) size ts).map Prod.snd
  | params => (itemsUntil .closeParen (param (term bound)) size ts).map Prod.snd
  | members exact => (Grammar.members (term bound) exact size ts).map Prod.snd
  | joined .union => (separated unionBar? (intersection (term bound) bound) size ts).map Prod.snd
  | joined .intersection =>
    (separated (eat? .ampersand) (nullable (term bound) bound) size ts).map Prod.snd

/-- One round of a loop, after which at most `size` are left. -/
def round (bound size : Nat) (loop : Loop) (ts : List Token) : Except Unexpected Round :=
  match loop with
  | tupleItems => itemRound .closeBracket (term bound) ts
  | typeArguments => itemRound .closeAngle (term bound) ts
  | typeParams => itemRound .closeAngle (typeParam (term bound)) ts
  | params => itemRound .closeParen (param (term bound)) ts
  | members exact => memberRound exact (member (term bound) size) ts
  | joined .union => joinedRound unionBar? (intersection (term bound) bound) ts
  | joined .intersection => joinedRound (eat? .ampersand) (nullable (term bound) bound) ts

end Loop

/-! ## Steps -/

/-- The readers of the grammar, and the smaller steps that they consist of. -/
inductive Step where
  -- Steps over single tokens.
  | expect (kind : Token.Kind)
  | skip (kind : Token.Kind)
  | skipVariance
  | skipParamName
  | skipIndexName
  | identifier
  | qualifiedName
  -- Terms.
  | term
  | intersection
  | nullable
  | suffixed
  | arrays (element : TypeTerm)
  | primary
  | name
  | tuple
  | parenthesised
  | function (separator : Token.Kind)
  | typeParams
  | typeParam
  | param
  | loop (loop : Loop)
  -- Object types.
  | object
  | member
  | keyedMember
  | indexer
  | memberEnd (exact : Bool)
  | objectEnd (exact : Bool)
  -- Statements.
  | declaration
  | skipStatement (first : Bool) (depth : Nat)
  | statement

/-- The tokens that a step leaves. -/
def Step.run (bound : Nat) (step : Step) (ts : List Token) : Except Unexpected (List Token) :=
  let inner := Grammar.term bound
  match step with
  | expect kind => Grammar.expect kind ts
  | skip kind => .ok (Grammar.skip kind ts)
  | skipVariance => .ok (Grammar.skipVariance ts)
  | skipParamName => .ok (Grammar.skipParamName ts)
  | skipIndexName => .ok (Grammar.skipIndexName ts)
  | identifier => (Grammar.identifier ts).map Prod.snd
  | qualifiedName => (Grammar.qualifiedName ts).map Prod.snd
  | term => (inner ts).map Prod.snd
  | intersection => (Grammar.intersection inner bound ts).map Prod.snd
  | nullable => (Grammar.nullable inner bound ts).map Prod.snd
  | suffixed => (Grammar.suffixed inner bound ts).map Prod.snd
  | arrays element => .ok (Grammar.arrays element ts).2
  | primary => (Grammar.primary inner bound ts).map Prod.snd
  | name => (Grammar.name inner bound ts).map Prod.snd
  | tuple => (Grammar.tuple inner bound ts).map Prod.snd
  | parenthesised => (Grammar.parenthesised inner bound ts).map Prod.snd
  | function separator => (functionWith inner bound separator ts).map Prod.snd
  | typeParams => (Grammar.typeParams inner bound ts).map Prod.snd
  | typeParam => (Grammar.typeParam inner ts).map Prod.snd
  | param => (Grammar.param inner ts).map Prod.snd
  | loop l => l.read bound bound ts
  | object => (Grammar.object inner bound ts).map Prod.snd
  | member => (Grammar.member inner bound ts).map Prod.snd
  | keyedMember => (Grammar.keyedMember inner bound ts).map Prod.snd
  | indexer => Grammar.indexer inner ts
  | memberEnd exact => Grammar.memberEnd exact ts
  | objectEnd exact => .ok ((objectEnd? exact ts).getD ts)
  | declaration => (Grammar.declaration bound ts).map Prod.snd
  | skipStatement first depth => .ok (Grammar.skipStatement first depth ts)
  | statement => (Grammar.statement bound ts).map Prod.snd

/-! ## Rounds -/

section Rounds

variable {α : Type} (item : Reader α) (size : Nat) (ts : List Token)

theorem itemsUntil_eq_round (close : Token.Kind) :
    (itemsUntil close item (size + 1) ts).map Prod.snd = itemRound close item ts >>=
      Round.next fun us => (itemsUntil close item size us).map Prod.snd := by
  rw [itemsUntil, itemRound]
  cases eat? close ts with
  | some us => rfl
  | none =>
    rw [map_bind, bind_assoc]
    refine bind_congr_ok rfl ?_
    rintro ⟨x, us⟩ -
    cases hcomma : eat? .comma us with
    | some vs =>
      simp only [hcomma]
      show (itemsUntil close item size vs >>= fun a => .ok (x :: a.1, a.2)).map Prod.snd
        = (itemsUntil close item size vs).map Prod.snd
      cases itemsUntil close item size vs <;> rfl
    | none =>
      simp only [hcomma]
      cases expect close us <;> rfl

theorem separated_eq_round (next? : List Token → Option (List Token)) (item : Reader TypeTerm) :
    (separated next? item (size + 1) ts).map Prod.snd = joinedRound next? item ts >>=
      Round.next fun us => (separated next? item size us).map Prod.snd := by
  rw [separated, joinedRound]
  cases next? ts with
  | none => rfl
  | some us =>
    rw [map_bind, bind_assoc]
    refine bind_congr_ok rfl ?_
    rintro ⟨x, vs⟩ -
    show (separated next? item size vs >>= fun a => .ok (x :: a.1, a.2)).map Prod.snd
      = (separated next? item size vs).map Prod.snd
    cases separated next? item size vs <;> rfl

theorem members_eq_round (term : Reader TypeTerm) (exact' : Bool) :
    (members term exact' (size + 1) ts).map Prod.snd = memberRound exact' (member term size) ts >>=
      Round.next fun us => (members term exact' size us).map Prod.snd := by
  rw [members, memberRound]
  cases objectEnd? exact' ts with
  | some us => rfl
  | none =>
    dsimp only
    split
    · rfl
    · rw [map_bind, bind_assoc]
      refine bind_congr_ok rfl ?_
      rintro ⟨m, us⟩ -
      dsimp only
      cases memberEnd exact' us with
      | error e => rfl
      | ok vs =>
        show (members term exact' size vs >>= fun a => .ok (m.toList ++ a.1, a.2)).map Prod.snd
          = (members term exact' size vs).map Prod.snd
        cases members term exact' size vs <;> rfl

end Rounds

/-- A loop does one round after the other. -/
theorem Loop.read_eq_round (bound size : Nat) (loop : Loop) (ts : List Token) :
    loop.read bound (size + 1) ts
      = loop.round bound size ts >>= Round.next (loop.read bound size) := by
  cases loop with
  | tupleItems | typeArguments | typeParams | params => exact itemsUntil_eq_round _ _ _ _
  | members exact' => exact members_eq_round _ _ _ _
  | joined joint => cases joint <;> exact separated_eq_round _ _ _ _

/-- After a round that is not the last one there are fewer tokens left. -/
def GetsAhead (f : List Token → Except Unexpected Round) (ts : List Token) : Prop :=
  ∀ rest, f ts = .ok (.goesOn rest) → rest <:+ ts ∧ rest.length < ts.length

section Ahead

variable {item : Reader α} {ts : List Token}

theorem getsAhead_itemRound (close : Token.Kind) (hitem : GoesOn item) :
    GetsAhead (itemRound close item) ts := by
  intro rest h
  unfold itemRound at h
  split at h
  · cases h
  · obtain ⟨⟨x, us⟩, hx, h⟩ := bind_eq_ok.mp h
    have hus : us <:+ ts := hitem.suffix hx
    cases hcomma : eat? .comma us with
    | some vs =>
      simp only [hcomma] at h
      cases h
      have hlen := length_of_eat? hcomma
      exact ⟨(suffix_of_eat? hcomma).trans hus, Nat.lt_of_lt_of_le (by omega) hus.length_le⟩
    | none =>
      simp only [hcomma] at h
      obtain ⟨vs, -, h⟩ := bind_eq_ok.mp h
      cases h

theorem getsAhead_joinedRound (joint : Joint) (hitem : GoesOn item) :
    GetsAhead (joinedRound joint.next? item) ts := by
  intro rest h
  unfold joinedRound at h
  split at h
  · cases h
  · rename_i us hnext
    obtain ⟨⟨x, vs⟩, hx, h⟩ := bind_eq_ok.mp h
    cases h
    have hvs : rest <:+ us := hitem.suffix hx
    have hpasses : Bracket.Passes Bracket.isCode 1 [] ts us := passes_next? hnext
    exact ⟨hvs.trans (suffix_of_passes hpasses),
      Nat.lt_of_le_of_lt hvs.length_le hpasses.length_le⟩

theorem getsAhead_memberRound {term : Reader TypeTerm} {size : Nat} (exact' : Bool)
    (hterm : Agrees .term term size) (hts : ts.length ≤ size + 1) :
    GetsAhead (memberRound exact' (member term size)) ts := by
  intro rest h
  unfold memberRound at h
  split at h
  · cases h
  · split at h
    · cases h
    · obtain ⟨⟨m, us⟩, hm, h⟩ := bind_eq_ok.mp h
      obtain ⟨vs, hend, h⟩ := bind_eq_ok.mp h
      cases h
      have hread := (agrees_member hterm ts hts m us).mp hm
      have hpasses : Bracket.Passes Bracket.isCode 0 [] us rest := passes_memberEnd hend
      exact ⟨(suffix_of_passes hpasses).trans (suffix_of_passes hread.consumed),
        Nat.lt_of_le_of_lt hpasses.length_le (hread.length_lt rfl)⟩

end Ahead

/-- Of a list that is long, a loop does one round after the other, and each but the last one takes
a token at least. -/
theorem Loop.getsAhead {bound size : Nat} {ts : List Token} (loop : Loop)
    (hts : ts.length ≤ size + 1) (hsize : size ≤ bound) : GetsAhead (loop.round bound size) ts := by
  have hterm := goesOn_term bound
  cases loop with
  | tupleItems | typeArguments => exact getsAhead_itemRound _ hterm
  | typeParams => exact getsAhead_itemRound _ (goesOn_typeParam hterm)
  | params => exact getsAhead_itemRound _ (goesOn_param hterm)
  | members exact' => exact getsAhead_memberRound exact' ((agrees_term bound).mono hsize) hts
  | joined joint =>
    cases joint with
    | union => exact getsAhead_joinedRound .union (goesOn_intersection hterm bound)
    | intersection => exact getsAhead_joinedRound .intersection (goesOn_nullable hterm bound)

/-! ## Steps in general -/

section Steps

variable {bound : Nat} {ts : List Token}

theorem Loop.stops (bound size : Nat) (loop : Loop) (ts : List Token) :
    Stops id ts (loop.read bound size ts) := by
  have hterm := goesOn_term bound
  cases loop with
  | tupleItems | typeArguments => exact (goesOn_itemsUntil _ hterm size ts).map
  | typeParams => exact (goesOn_itemsUntil _ (goesOn_typeParam hterm) size ts).map
  | params => exact (goesOn_itemsUntil _ (goesOn_param hterm) size ts).map
  | members exact' => exact (goesOn_members hterm size exact' ts).map
  | joined joint =>
    cases joint with
    | union => exact (goesOn_moreParts .union (goesOn_intersection hterm bound) size ts).map
    | intersection =>
      exact (goesOn_moreParts .intersection (goesOn_nullable hterm bound) size ts).map

/-- No step goes back. -/
theorem Step.stops (bound : Nat) (step : Step) (ts : List Token) :
    Stops id ts (step.run bound ts) := by
  have hterm := goesOn_term bound
  cases step with
  | expect kind => exact stops_expect kind ts
  | skip kind => exact skip_suffix kind ts
  | skipVariance => exact suffix_of_passes (passes_skipVariance ts)
  | skipParamName => exact suffix_of_passes (passes_skipParamName ts)
  | skipIndexName => exact suffix_of_passes (passes_skipIndexName ts)
  | identifier => exact (goesOn_identifier ts).map
  | qualifiedName => exact (goesOn_qualifiedName ts).map
  | term => exact (hterm ts).map
  | intersection => exact (goesOn_intersection hterm bound ts).map
  | nullable => exact (goesOn_nullable hterm bound ts).map
  | suffixed => exact (goesOn_suffixed hterm bound ts).map
  | arrays element => exact suffix_of_passes (passes_arrays element ts)
  | primary => exact (goesOn_primary hterm bound ts).map
  | name => exact (goesOn_name hterm bound ts).map
  | tuple => exact (goesOn_tuple hterm bound ts).map
  | parenthesised => exact (goesOn_parenthesised hterm bound ts).map
  | function separator => exact (goesOn_functionWith hterm bound separator ts).map
  | typeParams => exact (goesOn_typeParams hterm bound ts).map
  | typeParam => exact (goesOn_typeParam hterm ts).map
  | param => exact (goesOn_param hterm ts).map
  | loop l => exact l.stops bound bound ts
  | object => exact (goesOn_object hterm bound ts).map
  | member => exact (goesOn_member hterm bound ts).map
  | keyedMember => exact (goesOn_keyedMember hterm bound ts).map
  | indexer => exact stops_indexer hterm ts
  | memberEnd exact' => exact stops_memberEnd exact' ts
  | objectEnd exact' =>
    cases h : objectEnd? exact' ts with
    | none => exact stops_ok (by simp [h])
    | some us => exact stops_ok (by simpa [h] using suffix_of_passes (passes_objectEnd? h))
  | declaration => exact (goesOn_declaration bound ts).map
  | skipStatement first depth => exact skipStatement_suffix first depth ts
  | statement => exact (goesOn_statement bound ts).map

/-- Readers that are alike leave the same tokens. -/
theorem rest_congr {α : Type} {x y : Except Unexpected (α × List Token)} (h : x = y) :
    y.map Prod.snd = x.map Prod.snd := by
  rw [h]

theorem Loop.read_eq {size : Nat} (loop : Loop) (hbound : ts.length ≤ bound)
    (hsize : ts.length ≤ size) : loop.read bound size ts = loop.read ts.length ts.length ts := by
  have hterm := agrees_term ts.length
  have heq := term_congr hbound
  have hts := Nat.le_refl ts.length
  unfold Loop.read
  cases loop with
  | tupleItems | typeArguments =>
    exact rest_congr (itemsUntil_congr _ hterm rfl heq hsize hts)
  | typeParams =>
    exact rest_congr (itemsUntil_congr _ (agrees_typeParam hterm) rfl
      (fun us hus => typeParam_congr hterm heq hus) hsize hts)
  | params =>
    exact rest_congr (itemsUntil_congr _ (agrees_param hterm) rfl
      (fun us hus => param_congr heq hus) hsize hts)
  | members exact' => exact rest_congr (members_congr hterm heq exact' hsize hts)
  | joined joint =>
    cases joint with
    | union =>
      exact rest_congr (moreParts_congr .union (agrees_intersection hterm)
        (fun us hus => intersection_congr hterm heq hbound hus) hsize hts)
    | intersection =>
      exact rest_congr (moreParts_congr .intersection (agrees_nullable hterm)
        (fun us hus => nullable_congr hterm heq hbound hus) hsize hts)

/-- No bound makes a difference to a step that is not smaller than the number of tokens. -/
theorem Step.run_eq (step : Step) (h : ts.length ≤ bound) :
    step.run bound ts = step.run ts.length ts := by
  have hterm := agrees_term ts.length
  have heq := term_congr h
  have hts : ts.length ≤ ts.length + 1 := Nat.le_succ _
  cases step with
  | expect | skip | skipVariance | skipParamName | skipIndexName | identifier | qualifiedName
  | arrays | memberEnd | objectEnd | skipStatement => rfl
  | term => exact rest_congr (term_eq h).symm
  | intersection => exact rest_congr (intersection_congr hterm heq h hts)
  | nullable => exact rest_congr (nullable_congr hterm heq h hts)
  | suffixed => exact rest_congr (suffixed_congr hterm heq h hts)
  | primary => exact rest_congr (primary_congr hterm heq h hts)
  | name => exact rest_congr (name_congr hterm heq h hts)
  | tuple => exact rest_congr (tuple_congr hterm heq h hts)
  | parenthesised => exact rest_congr (parenthesised_congr hterm heq h hts)
  | function separator => exact rest_congr (functionWith_congr hterm heq h separator hts)
  | typeParams => exact rest_congr (typeParams_congr hterm heq h hts)
  | typeParam => exact rest_congr (typeParam_congr hterm heq (Nat.le_refl _))
  | param => exact rest_congr (param_congr heq (Nat.le_refl _))
  | loop l => exact l.read_eq h h
  | object => exact rest_congr (object_congr hterm heq h hts)
  | member => exact rest_congr (member_congr hterm heq h hts)
  | keyedMember => exact rest_congr (keyedMember_congr hterm heq h hts)
  | indexer => exact (indexer_congr hterm heq (Nat.le_refl _)).symm
  | declaration => exact rest_congr (declaration_eq h).symm
  | statement => exact rest_congr (statement_eq h).symm

end Steps

/-! ## Statements -/

/-- A statement, be it read or refused, takes its first token. -/
theorem stops_statement_cons (bound : Nat) (t : Token) (ts : List Token) :
    Stops Prod.snd ts (statement bound (t :: ts)) := by
  rw [statement]
  split
  · exact (goesOn_statement bound ts).bind fun _ => stops_ok List.suffix_rfl
  · split
    · exact stops_ok (skipStatement_suffix true 0 ts)
    · split
      · exact (goesOn_declaration bound ts).bind fun _ => stops_ok List.suffix_rfl
      · have hlen := skipStatement_first_length t ts
        rcases List.suffix_cons_iff.mp (skipStatement_suffix true 0 (t :: ts)) with h | h
        · rw [h, List.length_cons] at hlen
          omega
        · exact stops_ok h

end Grammar

namespace Program

/-- One round of the loop over the statements of a program, with the place of the cursor and the
statements that have been read: the cursor passes a semicolon or a statement. -/
inductive Round (tokens : List Token) : Nat × Program → Nat × Program → Prop where
  | empty {pos : Nat} {read : Program}
      (h : startsWith .semicolon (tokens.drop pos) = true) :
      Round tokens (pos, read) (pos + 1, read)
  | statement {pos next : Nat} {read : Program} {s : Statement} (hpos : pos < next)
      (hnext : next ≤ tokens.length) (h : startsWith .semicolon (tokens.drop pos) = false)
      (hs : Grammar.statement tokens.length (tokens.drop pos) = .ok (s, tokens.drop next)) :
      Round tokens (pos, read) (next, read ++ [s])

open Relation (ReflTransGen)

/-- The rounds from a state on come to this result: behind the last token, with the statements of
the program, or in front of a statement that is refused. -/
def Ends (tokens : List Token) (start : Nat × Program) : Except Unexpected Program → Prop
  | .ok p => ReflTransGen (Round tokens) start (tokens.length, p)
  | .error u => ∃ last read, ReflTransGen (Round tokens) start (last, read) ∧
      last < tokens.length ∧ Grammar.statement tokens.length (tokens.drop last) = .error u

section Rounds

variable {tokens : List Token} {bound pos : Nat} {read : Program}

theorem ends_last (hpos : pos ≤ tokens.length) (hlast : tokens.length ≤ pos) :
    Ends tokens (pos, read) (.ok (read ++ [])) := by
  cases Nat.le_antisymm hpos hlast
  rw [List.append_nil]
  exact ReflTransGen.refl

theorem Ends.head {start next : Nat × Program} {x : Except Unexpected Program}
    (hround : Round tokens start next) (h : Ends tokens next x) : Ends tokens start x := by
  cases x with
  | ok p => exact ReflTransGen.head hround h
  | error u =>
    obtain ⟨last, read, hrounds, hlast⟩ := h
    exact ⟨last, read, ReflTransGen.head hround hrounds, hlast⟩

/-- A program is what the rounds from its place on come to. -/
theorem ends_program (hpos : pos ≤ tokens.length) (hbound : tokens.length ≤ pos + bound) :
    Ends tokens (pos, read) ((Grammar.program bound (tokens.drop pos)).map (read ++ ·)) := by
  induction bound generalizing pos read with
  | zero => exact ends_last hpos hbound
  | succ bound ih =>
    cases hrest : tokens.drop pos with
    | nil => exact ends_last hpos (List.drop_eq_nil_iff.mp hrest)
    | cons t ts =>
      have hlen := congrArg List.length hrest
      rw [List.length_drop, List.length_cons] at hlen
      have htail : tokens.drop (pos + 1) = ts := by rw [← List.tail_drop, hrest, List.tail_cons]
      rw [Grammar.program]
      split
      · rename_i ht
        have hround : Round tokens (pos, read) (pos + 1, read) :=
          .empty (by rw [hrest]; simpa using ht)
        rw [← htail]
        exact (ih (by omega) (by omega)).head hround
      · rename_i ht
        have hstatement : statement (bound + 1) (t :: ts) = statement tokens.length (t :: ts) :=
          (statement_eq (by rw [List.length_cons]; omega)).trans
            (statement_eq (by rw [List.length_cons]; omega)).symm
        have hstops := stops_statement_cons tokens.length t ts
        rw [hstatement]
        cases hs : statement tokens.length (t :: ts) with
        | error u => exact ⟨pos, read, .refl, by omega, by rw [hrest, hs]⟩
        | ok a =>
          obtain ⟨s, us⟩ := a
          rw [hs, ← htail] at hstops
          obtain ⟨next, hpos', hnext, rfl⟩ := exists_place (by omega) hstops
          have hround : Round tokens (pos, read) (next, read ++ [s]) :=
            .statement hpos' hnext (by rw [hrest]; simpa using ht) (by rw [hrest, hs])
          have hmore := (ih hnext (by omega : tokens.length ≤ next + bound)).head hround
          show Ends tokens (pos, read) ((Grammar.program bound (tokens.drop next) >>= fun more =>
            .ok (s :: more)).map (read ++ ·))
          cases hprogram : Grammar.program bound (tokens.drop next) with
          | error u =>
            rw [hprogram] at hmore
            exact hmore
          | ok more =>
            rw [hprogram, Except.map, List.append_assoc] at hmore
            exact hmore

end Rounds

/-- Whatever the tokens are, reading them comes to an end, and it stays within them.

* The loop over the statements ends, behind the last token if the tokens are a program.
* No bound that is not smaller than the number of tokens makes a difference to that.
* A term is a union of terms, and what reads those is asked only about fewer tokens.
* The same holds for each step from each place, and none goes back or out of the tokens.
* A statement that begins at a token takes one at least, even if it is refused.
* A loop inside a term does one round after the other, and each but the last one takes a token. -/
theorem ends_ofTokens (tokens : List Token) :
    Ends tokens (0, []) (ofTokens tokens) ∧
    (∀ bound, tokens.length ≤ bound → Grammar.program bound tokens = ofTokens tokens) ∧
    (∀ (inner : Reader TypeTerm) (bound : Nat), tokens.length ≤ bound + 1 →
      (∀ us : List Token, us.length < tokens.length → inner us = term us.length us) →
      Grammar.union inner bound tokens = term tokens.length tokens) ∧
    (∀ (step : Step) (bound pos : Nat), pos ≤ tokens.length → tokens.length ≤ pos + bound →
      Lands tokens pos (step.run bound (tokens.drop pos)) ∧
      step.run bound (tokens.drop pos) = step.run (tokens.length - pos) (tokens.drop pos)) ∧
    (∀ bound pos : Nat, pos < tokens.length →
      Lands tokens (pos + 1) (Step.statement.run bound (tokens.drop pos))) ∧
    ∀ (loop : Loop) (bound size pos : Nat), tokens.length ≤ pos + size + 1 → size ≤ bound →
      loop.read bound (size + 1) (tokens.drop pos)
        = loop.round bound size (tokens.drop pos) >>= Round.next (loop.read bound size) ∧
      ∀ rest, loop.round bound size (tokens.drop pos) = .ok (.goesOn rest) →
        Lands tokens (pos + 1) (.ok rest) := by
  refine ⟨?_, fun bound hbound => program_eq hbound,
    fun inner bound hbound hinner => union_eq_term hbound hinner, ?_, ?_, ?_⟩
  · have hends : Ends tokens (0, [])
        ((Grammar.program tokens.length (tokens.drop 0)).map ([] ++ ·)) :=
      ends_program (Nat.zero_le tokens.length) (Nat.le_of_eq (Nat.zero_add tokens.length).symm)
    have hsame : (Grammar.program tokens.length tokens).map ([] ++ ·) = ofTokens tokens := by
      unfold ofTokens
      cases Grammar.program tokens.length tokens <;> rfl
    rwa [List.drop_zero, hsame] at hends
  · intro step bound pos hpos hbound
    have hlen : (tokens.drop pos).length ≤ bound := by
      rw [List.length_drop]
      omega
    refine ⟨lands_of_stops hpos (step.stops bound _), ?_⟩
    rw [step.run_eq hlen, List.length_drop]
  · intro bound pos hpos
    cases hrest : tokens.drop pos with
    | nil => exact absurd hpos (Nat.not_lt.mpr (List.drop_eq_nil_iff.mp hrest))
    | cons t ts =>
      have htail : tokens.drop (pos + 1) = ts := by rw [← List.tail_drop, hrest, List.tail_cons]
      refine lands_of_stops hpos ?_
      rw [htail]
      exact (stops_statement_cons bound t ts).map
  · intro loop bound size pos hsize hle
    refine ⟨loop.read_eq_round bound size _, fun rest hround => ?_⟩
    have hlen : (tokens.drop pos).length ≤ size + 1 := by
      rw [List.length_drop]
      omega
    obtain ⟨hsuffix, hlt⟩ := loop.getsAhead hlen hle rest hround
    exact lands_of_length_lt hsuffix hlt

/-- The rounds of this program end behind its last token, also with a larger bound, and the first of
its statements takes a token. A reader that fails on all tokens of the program is never asked about
them when a union is read. -/
theorem ends_ofTokens_example :
    ∃ source tokens p,
      source = "; export type A = \x7b| f(x: B<C, D>): [E, \x7b\x7d], |\x7d; x = 1" ∧
      Token.scan (blankDeclarations source.toList) = .ok tokens ∧ tokens.length = 32 ∧
      ofTokens tokens = .ok p ∧ p.length = 2 ∧
      ReflTransGen (Round tokens) (0, []) (tokens.length, p) ∧
      Grammar.program 40 tokens = .ok p ∧
      Grammar.union (fun us =>
        if us.length < 32 then term us.length us else unexpected .typeTerm us) 31 tokens
          = term 32 tokens ∧
      Lands tokens 2 (Step.statement.run 32 (tokens.drop 1)) := by
  generalize hsource : "; export type A = \x7b| f(x: B<C, D>): [E, \x7b\x7d], |\x7d; x = 1" = source
  have hcount : (Token.scan (blankDeclarations source.toList)).map List.length = .ok 32 := by
    subst hsource
    decide +kernel
  have hlength : (parse source).map List.length = .ok 2 := by
    subst hsource
    decide +kernel
  obtain ⟨tokens, hscan, htokens⟩ := map_eq_ok.mp hcount
  obtain ⟨p, hparse, hp⟩ := map_eq_ok.mp hlength
  obtain ⟨tokens', hscan', hread⟩ := bind_eq_ok.mp hparse
  cases hscan.symm.trans hscan'
  have hprogram := mapError_eq_ok.mp hread
  obtain ⟨hends, hbounds, hunion, -, hstatement, -⟩ := ends_ofTokens tokens
  rw [hprogram] at hends
  rw [htokens] at hunion
  have hinner : ∀ us : List Token, us.length < 32 →
      (if us.length < 32 then term us.length us else unexpected .typeTerm us)
        = term us.length us := fun us hus => if_pos hus
  exact ⟨source, tokens, p, rfl, hscan, htokens, hprogram, hp, hends,
    (hbounds 40 (by omega)).trans hprogram, hunion _ 31 (Nat.le_refl 32) hinner,
    hstatement 32 1 (by omega)⟩

end Program
end AliasCheck
