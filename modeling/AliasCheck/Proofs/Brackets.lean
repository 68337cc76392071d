import AliasCheck.Token

/-!
# Brackets in a list of tokens

Parentheses, brackets, braces and angle brackets nest in the part of a source that a reader of terms
consumes. Code around declarations uses angle brackets as operators too, so what is said of all
tokens of a source is about the other three kinds. A list of tokens is followed with a stack of the
brackets that are open; which kinds count is a parameter.
-/

namespace AliasCheck

/-- The sorts of brackets. -/
inductive Bracket where
  | paren | square | brace | angle
  deriving DecidableEq, Repr

namespace Token.Kind

/-- The bracket that a token of this kind opens. -/
def opens? : Kind → Option Bracket
  | .openParen => some .paren
  | .openBracket => some .square
  | .openBrace => some .brace
  | .openAngle => some .angle
  | _ => none

/-- The bracket that a token of this kind closes. -/
def closes? : Kind → Option Bracket
  | .closeParen => some .paren
  | .closeBracket => some .square
  | .closeBrace => some .brace
  | .closeAngle => some .angle
  | _ => none

end Token.Kind

namespace Bracket

/-- The kind of the token that closes a bracket. -/
def closer : Bracket → Token.Kind
  | paren => .closeParen
  | square => .closeBracket
  | brace => .closeBrace
  | angle => .closeAngle

@[simp] theorem opens?_closer (b : Bracket) : b.closer.opens? = none := by cases b <;> rfl

@[simp] theorem closes?_closer (b : Bracket) : b.closer.closes? = some b := by cases b <;> rfl

variable (counts : Bracket → Bool)

/-- The brackets that are open after a token; none if the token closes a bracket other than the one
that was opened last. -/
def step (stack : List Bracket) (t : Token) : Option (List Bracket) :=
  match t.kind.opens?, t.kind.closes? with
  | some b, _ => some (if counts b then b :: stack else stack)
  | none, some b =>
    if counts b then
      match stack with
      | top :: stack => if top = b then some stack else none
      | [] => none
    else some stack
  | none, none => some stack

/-- The brackets that are open after a list of tokens. -/
def openAfter : (stack : List Bracket) → List Token → Option (List Bracket)
  | stack, [] => some stack
  | stack, t :: ts => (step counts stack t).bind fun stack => openAfter stack ts

/-- All kinds but angle brackets. -/
def isCode : Bracket → Bool
  | angle => false
  | _ => true

variable {counts}

/-! ## Lists of tokens one after the other -/

@[simp] theorem openAfter_nil (stack : List Bracket) : openAfter counts stack [] = some stack := rfl

theorem openAfter_cons (stack : List Bracket) (t : Token) (ts : List Token) :
    openAfter counts stack (t :: ts)
      = (step counts stack t).bind fun stack => openAfter counts stack ts := rfl

theorem openAfter_append (stack : List Bracket) (ts us : List Token) :
    openAfter counts stack (ts ++ us)
      = (openAfter counts stack ts).bind fun stack => openAfter counts stack us := by
  induction ts generalizing stack with
  | nil => rfl
  | cons t ts ih =>
    rw [List.cons_append, openAfter_cons, openAfter_cons, Option.bind_assoc]
    congr 1
    funext stack
    exact ih stack

/-- What is open below does not matter to tokens that do not reach it. -/
theorem openAfter_below {stack stack' : List Bracket} {ts : List Token}
    (h : openAfter counts stack ts = some stack') (below : List Bracket) :
    openAfter counts (stack ++ below) ts = some (stack' ++ below) := by
  induction ts generalizing stack with
  | nil =>
    cases h
    rfl
  | cons t ts ih =>
    rw [openAfter_cons] at h ⊢
    obtain ⟨next, hstep, hrest⟩ := Option.bind_eq_some_iff.mp h
    have hnext : step counts (stack ++ below) t = some (next ++ below) := by
      unfold step at hstep ⊢
      split at hstep
      · cases hstep
        split <;> simp_all
      · split at hstep
        · cases stack with
          | nil => cases hstep
          | cons top stack => simp_all
        · simp_all
      · simp_all
    rw [hnext]
    exact ih hrest

/-! ## Balanced lists -/

/-- Every bracket is closed in the list in which it is opened. -/
def Balanced (counts : Bracket → Bool) (ts : List Token) : Prop := openAfter counts [] ts = some []

theorem Balanced.openAfter {ts : List Token} (h : Balanced counts ts) (stack : List Bracket) :
    openAfter counts stack ts = some stack := openAfter_below h stack

theorem Balanced.nil : Balanced counts [] := rfl

theorem Balanced.append {ts us : List Token} (h : Balanced counts ts) (h' : Balanced counts us) :
    Balanced counts (ts ++ us) := by
  unfold Balanced
  rw [openAfter_append, h]
  exact h'

theorem Balanced.of_cons {t : Token} {ts : List Token} (h : Balanced counts (t :: ts))
    (h' : Balanced counts [t]) : Balanced counts ts := by
  unfold Balanced at h
  rw [← List.singleton_append, openAfter_append, h'] at h
  exact h

theorem Balanced.of_append {ts us : List Token} (h : Balanced counts (ts ++ us))
    (h' : Balanced counts ts) : Balanced counts us := by
  unfold Balanced at h
  rw [openAfter_append, h'] at h
  exact h

/-- A token that is no bracket changes nothing. -/
theorem step_of_plain {t : Token} (ho : t.kind.opens? = none) (hc : t.kind.closes? = none)
    (stack : List Bracket) : step counts stack t = some stack := by
  simp [step, ho, hc]

theorem Balanced.plain {t : Token} (ho : t.kind.opens? = none) (hc : t.kind.closes? = none) :
    Balanced counts [t] := by
  unfold Balanced
  rw [openAfter_cons, step_of_plain ho hc]
  rfl

/-- What a token does to the brackets other than angle brackets that are open. -/
theorem step_isCode {stack next : List Bracket} {t : Token}
    (h : step isCode stack t = some next) :
    (∃ b, next = b :: stack ∧ t.kind ∈ [.openParen, .openBracket, .openBrace]) ∨
    (∃ b, stack = b :: next ∧ t.kind = b.closer ∧
      t.kind ∈ [.closeParen, .closeBracket, .closeBrace]) ∨
    (next = stack ∧ t.kind ∉ [.openParen, .openBracket, .openBrace, .closeParen, .closeBracket,
      .closeBrace]) := by
  unfold step at h
  split at h
  · rename_i b hopens
    cases h
    cases b <;> cases hkind : t.kind <;> simp_all [Token.Kind.opens?, isCode]
  · rename_i b _ hcloses
    split at h
    · cases stack with
      | nil => cases h
      | cons top stack =>
        simp only [Option.ite_none_right_eq_some, Option.some.injEq] at h
        obtain ⟨rfl, rfl⟩ := h
        refine .inr (.inl ⟨top, rfl, ?_⟩)
        cases top <;> cases hkind : t.kind <;> simp_all [Token.Kind.closes?, isCode, closer]
    · cases h
      cases b <;> cases hkind : t.kind <;> simp_all [Token.Kind.closes?, isCode]
  · rename_i hopens hcloses
    cases h
    cases hkind : t.kind <;> simp_all [Token.Kind.opens?, Token.Kind.closes?]

/-! ## Passing tokens -/

/-- From `ts` one comes to `r` by passing at least `least` tokens that close exactly the brackets in
`pending`. -/
def Passes (counts : Bracket → Bool) (least : Nat) (pending : List Bracket)
    (ts r : List Token) : Prop :=
  ∃ used, ts = used ++ r ∧ least ≤ used.length ∧
    openAfter counts (pending.filter counts) used = some []

namespace Passes

variable {least least' : Nat} {pending : List Bracket} {kind : Token.Kind}
  {t c : Token} {ts r r' : List Token}

theorem refl (ts : List Token) : Passes counts 0 [] ts ts := ⟨[], rfl, Nat.le_refl _, rfl⟩

theorem mono (h : Passes counts least pending ts r) (hle : least' ≤ least) :
    Passes counts least' pending ts r := by
  obtain ⟨used, hts, hlen, hopen⟩ := h
  exact ⟨used, hts, Nat.le_trans hle hlen, hopen⟩

theorem trans (h : Passes counts least [] ts r) (h' : Passes counts least' pending r r') :
    Passes counts (least + least') pending ts r' := by
  obtain ⟨used, rfl, hlen, hopen⟩ := h
  obtain ⟨used', rfl, hlen', hopen'⟩ := h'
  refine ⟨used ++ used', (List.append_assoc ..).symm, ?_, ?_⟩
  · rw [List.length_append]
    omega
  · rw [openAfter_append, Balanced.openAfter hopen]
    exact hopen'

/-- A token that is no bracket is passed. -/
theorem plain (ht : t.kind = kind) (ho : kind.opens? = none) (hc : kind.closes? = none)
    (ts : List Token) : Passes counts 1 [] (t :: ts) ts := by
  subst ht
  refine ⟨[t], rfl, Nat.le_refl _, ?_⟩
  rw [openAfter_cons, step_of_plain ho hc]
  rfl

/-- A bracket is passed together with what closes it. -/
theorem opened {b : Bracket} (h : Passes counts least [b] ts r) (ht : t.kind = kind)
    (ho : kind.opens? = some b) : Passes counts (least + 1) [] (t :: ts) r := by
  subst ht
  obtain ⟨used, rfl, hlen, hopen⟩ := h
  refine ⟨t :: used, rfl, Nat.succ_le_succ hlen, ?_⟩
  rw [openAfter_cons, step, ho]
  cases hb : counts b <;> simpa [hb] using hopen

/-- A closing bracket ends what stands in the bracket. -/
theorem closed {b : Bracket} (h : Passes counts least [] ts (c :: r)) (hkind : c.kind = kind)
    (ho : kind.opens? = none) (hc : kind.closes? = some b) :
    Passes counts (least + 1) [b] ts r := by
  subst hkind
  obtain ⟨used, rfl, hlen, hopen⟩ := h
  refine ⟨used ++ [c], by simp, by simpa using hlen, ?_⟩
  rw [openAfter_append, Balanced.openAfter hopen, Option.bind_some, openAfter_cons, step, ho, hc]
  cases hb : counts b <;> simp [hb]

/-- The number of tokens that are passed, whichever brackets count; that of the code is as good as
any. -/
theorem length_le (h : Passes isCode least pending ts r) : r.length + least ≤ ts.length := by
  obtain ⟨used, rfl, hlen, -⟩ := h
  rw [List.length_append]
  omega

end Passes

end Bracket

end AliasCheck
