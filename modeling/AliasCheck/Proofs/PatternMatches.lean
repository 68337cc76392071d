import AliasCheck.Pattern
import Mathlib.Data.List.TakeDrop

/-!
# What patterns match

A pattern describes parts of a text, and a text matches if some part of it is described. Matching
does not look at one part after the other: it follows all of them at once, from the places where
they begin to those where they end. A repetition without an upper bound is followed only as often as
there are characters, which is enough because a match without characters leads nowhere new.
-/

namespace AliasCheck

/-- So many steps from one place to another. -/
inductive Steps (r : Nat → Nat → Prop) : (n i j : Nat) → Prop where
  | zero {i} : Steps r 0 i i
  | succ {n i j k} (first : r i j) (more : Steps r n j k) : Steps r (n + 1) i k

namespace PatternTerm

/-- The pattern describes the part of a text between two places. An upper bound for a repetition
that is smaller than the lower one counts for as much as that one. -/
def Spans (text : Array Char) : PatternTerm → (i j : Nat) → Prop
  | empty, i, j => i = j
  | set s, i, j => j = i + 1 ∧ ∃ c, text[i]? = some c ∧ s.contains c
  | assertion condition, i, j =>
    i = j ∧ condition.holds (if i = 0 then none else text[i - 1]?) text[i]?
  | sequence a b, i, k => ∃ j, Spans text a i j ∧ Spans text b j k
  | choice a b, i, j => Spans text a i j ∨ Spans text b i j
  | repetition t low high, i, j =>
    ∃ n, low ≤ n ∧ (∀ m, high = some m → n ≤ max low m) ∧ Steps (Spans text t) n i j

end PatternTerm

/-- The pattern describes some part of the text. -/
def Pattern.Matches (p : Pattern) (text : String) : Prop :=
  ∃ i j, i ≤ text.length ∧ p.term.Spans text.toList.toArray i j

/-! ## Steps -/

namespace Steps

variable {r : Nat → Nat → Prop} {m n i j k : Nat}

theorem add_iff : Steps r (m + n) i k ↔ ∃ j, Steps r m i j ∧ Steps r n j k := by
  constructor
  · intro h
    induction m generalizing i with
    | zero => exact ⟨i, .zero, by rwa [Nat.zero_add] at h⟩
    | succ m ih =>
      rw [Nat.succ_add] at h
      cases h with
      | succ first more =>
        obtain ⟨j, hm, hn⟩ := ih more
        exact ⟨j, .succ first hm, hn⟩
  · rintro ⟨j, hm, hn⟩
    induction hm with
    | zero => rwa [Nat.zero_add]
    | succ first _ ih =>
      rw [Nat.succ_add]
      exact .succ first (ih hn)

section Bounds

variable {size : Nat} (hr : ∀ i j, r i j → i ≤ j ∧ j ≤ max i size)

include hr

theorem bounds (h : Steps r n i j) : i ≤ j ∧ j ≤ max i size := by
  induction h with
  | zero => exact ⟨Nat.le_refl _, Nat.le_max_left ..⟩
  | succ first _ ih =>
    have hfirst := hr _ _ first
    omega

/-- Steps that stay where they are can be left out, so no more are needed than there are places. -/
theorem exists_le (h : Steps r n i j) : ∃ m, m ≤ size ∧ Steps r m i j := by
  have hpassed : ∃ m, m ≤ j - i ∧ Steps r m i j := by
    induction h with
    | zero => exact ⟨0, Nat.zero_le _, .zero⟩
    | @succ n i j k first more ih =>
      obtain ⟨m, hm, hsteps⟩ := ih
      have hmore := more.bounds hr
      rcases Nat.eq_or_lt_of_le (hr i j first).1 with rfl | hij
      · exact ⟨m, hm, hsteps⟩
      · exact ⟨m + 1, by omega, .succ first hsteps⟩
  obtain ⟨m, hm, hsteps⟩ := hpassed
  have hbounds := h.bounds hr
  exact ⟨m, by omega, hsteps⟩

end Bounds

end Steps

namespace PatternTerm

/-! ## Places -/

theorem mem_merge {xs ys : List Nat} {i : Nat} : i ∈ merge xs ys ↔ i ∈ xs ∨ i ∈ ys := by
  induction xs generalizing ys with
  | nil => simp [merge]
  | cons x xs ih =>
    have hys : i ∈ ys ↔ i ∈ ys.takeWhile (· < x) ∨ i ∈ ys.dropWhile (· < x) := by
      rw [← List.mem_append, List.takeWhile_append_dropWhile]
    have hrest {rest : List Nat} :
        i = x ∨ i ∈ (if rest.head? = some x then rest.tail else rest) ↔ i = x ∨ i ∈ rest := by
      cases rest with
      | nil => simp
      | cons y rest =>
        by_cases hy : y = x
        · simp [hy]
        · simp [hy]
    have hlater := @hrest (ys.dropWhile (· < x))
    rw [merge, List.span_eq_takeWhile_dropWhile, List.mem_append, List.mem_cons, ih, hys,
      List.mem_cons]
    grind

section Follow

variable {f : List Nat → List Nat} {r : Nat → Nat → Prop}
  (hf : ∀ {places j}, j ∈ f places ↔ ∃ i ∈ places, r i j) {n j : Nat}

include hf

/-- What is reached in exactly so many steps. -/
theorem mem_times {places : List Nat} :
    j ∈ times f n places ↔ ∃ i ∈ places, Steps r n i j := by
  induction n generalizing places with
  | zero =>
    constructor
    · intro h
      exact ⟨j, h, .zero⟩
    · rintro ⟨i, hi, hsteps⟩
      cases hsteps
      exact hi
  | succ n ih =>
    have hempty : (∃ i ∈ f places, Steps r n i j) ↔ ∃ i ∈ places, Steps r (n + 1) i j := by
      constructor
      · rintro ⟨k, hk, hsteps⟩
        obtain ⟨i, hi, hfirst⟩ := hf.mp hk
        exact ⟨i, hi, .succ hfirst hsteps⟩
      · rintro ⟨i, hi, hsteps⟩
        cases hsteps with
        | succ hfirst hmore => exact ⟨_, hf.mpr ⟨i, hi, hfirst⟩, hmore⟩
    rw [times]
    cases places with
    | nil => simp
    | cons i places => exact ih.trans hempty

/-- What is reached in up to so many steps, if all that follows on the places that were reached
before is known, but for those that are followed now. -/
theorem mem_upTo {reached places : List Nat} (hknown : ∀ i ∈ places, i ∈ reached)
    (hdone : ∀ i ∈ reached, i ∉ places → ∀ k, r i k → k ∈ reached) :
    j ∈ upTo f n reached places ↔ ∃ i ∈ reached, ∃ m ≤ n, Steps r m i j := by
  induction n generalizing reached places with
  | zero =>
    constructor
    · intro h
      exact ⟨j, h, 0, Nat.le_refl 0, .zero⟩
    · rintro ⟨i, hi, m, hm, hsteps⟩
      cases Nat.le_zero.mp hm
      cases hsteps
      exact hi
  | succ n ih =>
    have hnew {k : Nat} : k ∈ (f places).filter (fun p => !reached.contains p) ↔
        (∃ i ∈ places, r i k) ∧ k ∉ reached := by
      simp [hf]
    have hfollow {i k : Nat} (hi : i ∈ reached) (hstep : r i k) :
        k ∈ reached ∨ k ∈ (f places).filter (fun p => !reached.contains p) := by
      by_cases hk : k ∈ reached
      · exact .inl hk
      · by_cases hplace : i ∈ places
        · exact .inr (hnew.mpr ⟨⟨i, hplace, hstep⟩, hk⟩)
        · exact .inl (hdone i hi hplace k hstep)
    rw [upTo]
    generalize (f places).filter (fun p => !reached.contains p) = new at hnew hfollow ⊢
    cases new with
    | nil =>
      -- nothing leads out of the places that were reached
      have hclosed {m i : Nat} (hi : i ∈ reached) (hsteps : Steps r m i j) : j ∈ reached := by
        clear ih
        induction hsteps with
        | zero => exact hi
        | succ hfirst _ ih =>
          exact ih ((hfollow hi hfirst).resolve_right List.not_mem_nil)
      constructor
      · intro h
        exact ⟨j, h, 0, Nat.zero_le _, .zero⟩
      · rintro ⟨i, hi, m, -, hsteps⟩
        exact hclosed hi hsteps
    | cons p new =>
      have hall := @ih (merge reached (p :: new)) (p :: new)
        (fun i hi => mem_merge.mpr (.inr hi))
        (fun i hi hnot k hstep =>
          mem_merge.mpr (hfollow ((mem_merge.mp hi).resolve_right hnot) hstep))
      refine hall.trans ?_
      constructor
      · rintro ⟨i, hi, m, hm, hsteps⟩
        rcases mem_merge.mp hi with hi | hi
        · exact ⟨i, hi, m, Nat.le_succ_of_le hm, hsteps⟩
        · obtain ⟨⟨i', hi', hstep⟩, -⟩ := hnew.mp hi
          exact ⟨i', hknown i' hi', m + 1, Nat.succ_le_succ hm, .succ hstep hsteps⟩
      · rintro ⟨i, hi, m, hm, hsteps⟩
        cases hsteps with
        | zero => exact ⟨j, mem_merge.mpr (.inl hi), 0, Nat.zero_le n, .zero⟩
        | succ hfirst hmore =>
          exact ⟨_, mem_merge.mpr (hfollow hi hfirst), _, Nat.le_of_succ_le_succ hm, hmore⟩

end Follow

/-! ## Matches -/

section Matches

variable {text : Array Char} {t : PatternTerm}

/-- A match goes forward and not beyond the end of the text. -/
theorem Spans.bounds {i j : Nat} (h : Spans text t i j) : i ≤ j ∧ j ≤ max i text.size := by
  induction t generalizing i j with
  | empty =>
    cases h
    exact ⟨Nat.le_refl i, Nat.le_max_left ..⟩
  | set s =>
    obtain ⟨rfl, c, hc, -⟩ := h
    obtain ⟨hi, -⟩ := Array.getElem?_eq_some_iff.mp hc
    exact ⟨Nat.le_succ i, Nat.le_trans hi (Nat.le_max_right ..)⟩
  | assertion condition =>
    cases h.1
    exact ⟨Nat.le_refl i, Nat.le_max_left ..⟩
  | sequence a b iha ihb =>
    obtain ⟨k, ha, hb⟩ := h
    have hfirst := iha ha
    have hsecond := ihb hb
    omega
  | choice a b iha ihb => exact h.elim iha ihb
  | repetition t low high ih =>
    obtain ⟨n, -, -, hsteps⟩ := h
    exact hsteps.bounds fun _ _ => ih

/-- The places where matches end that begin at given places. -/
theorem mem_ends {places : List Nat} {j : Nat} :
    j ∈ ends text t places ↔ ∃ i ∈ places, Spans text t i j := by
  induction t generalizing places j with
  | empty => simp [ends, Spans]
  | set s =>
    simp only [ends, Spans, List.mem_map, List.mem_filter, Option.any_eq_true]
    constructor
    · rintro ⟨i, ⟨hi, c, hc, hmem⟩, rfl⟩
      exact ⟨i, hi, rfl, c, hc, hmem⟩
    · rintro ⟨i, hi, rfl, c, hc, hmem⟩
      exact ⟨i, ⟨hi, c, hc, hmem⟩, rfl⟩
  | assertion condition =>
    simp only [ends, Spans, List.mem_filter]
    constructor
    · rintro ⟨hj, hholds⟩
      exact ⟨j, hj, rfl, hholds⟩
    · rintro ⟨i, hi, rfl, hholds⟩
      exact ⟨hi, hholds⟩
  | sequence a b iha ihb =>
    rw [ends, ihb]
    simp only [iha, Spans]
    constructor
    · rintro ⟨k, ⟨i, hi, ha⟩, hb⟩
      exact ⟨i, hi, k, ha, hb⟩
    · rintro ⟨i, hi, k, ha, hb⟩
      exact ⟨k, ⟨i, hi, ha⟩, hb⟩
  | choice a b iha ihb =>
    rw [ends, mem_merge, iha, ihb]
    simp only [Spans, and_or_left, exists_or]
  | repetition t low high ih =>
    have hreached {i : Nat} : i ∈ times (ends text t) low places ↔ _ :=
      mem_times (fun {_ _} => ih)
    show j ∈ upTo (ends text t) _ (times (ends text t) low places) (times (ends text t) low places)
      ↔ _
    rw [mem_upTo (fun {_ _} => ih) (fun _ hi => hi) (fun i hi hnot => absurd hi hnot)]
    simp only [hreached, Spans]
    constructor
    · rintro ⟨k, ⟨i, hi, hleast⟩, m, hm, hmore⟩
      refine ⟨i, hi, low + m, Nat.le_add_right low m, ?_, Steps.add_iff.mpr ⟨k, hleast, hmore⟩⟩
      rintro bound rfl
      have hbound : m ≤ bound - low := hm
      omega
    · rintro ⟨i, hi, n, hn, hbound, hsteps⟩
      obtain ⟨m, rfl⟩ := Nat.exists_eq_add_of_le hn
      obtain ⟨k, hleast, hmore⟩ := Steps.add_iff.mp hsteps
      cases high with
      | none =>
        obtain ⟨m', hm', hfew⟩ := hmore.exists_le fun _ _ h => h.bounds
        exact ⟨k, ⟨i, hi, hleast⟩, m', Nat.le_succ_of_le hm', hfew⟩
      | some bound =>
        have hle := hbound bound rfl
        exact ⟨k, ⟨i, hi, hleast⟩, m, by show m ≤ bound - low; omega, hmore⟩

end Matches

end PatternTerm

/-- Matching finds out whether the pattern describes some part of the text. -/
theorem Pattern.matchesIn_iff {p : Pattern} {text : String} :
    p.term.matchesIn text = true ↔ p.Matches text := by
  have hsome {places : List Nat} : (!places.isEmpty) = true ↔ ∃ j, j ∈ places := by
    cases places with
    | nil => simp
    | cons j places => exact iff_of_true rfl ⟨j, List.mem_cons_self⟩
  have hsize : text.toList.toArray.size = text.length := String.length_toList
  rw [PatternTerm.matchesIn, hsome, hsize]
  simp only [PatternTerm.mem_ends, List.mem_range, Nat.lt_succ_iff, Pattern.Matches]
  constructor
  · rintro ⟨j, i, hi, hspans⟩
    exact ⟨i, j, hi, hspans⟩
  · rintro ⟨i, j, hi, hspans⟩
    exact ⟨j, i, hi, hspans⟩

instance (p : Pattern) (text : String) : Decidable (p.Matches text) :=
  decidable_of_iff (p.term.matchesIn text = true) Pattern.matchesIn_iff

end AliasCheck
