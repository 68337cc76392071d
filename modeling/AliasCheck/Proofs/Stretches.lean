import Mathlib.Algebra.Group.Nat.Defs
import AliasCheck.Text.Unicode.Ranges

/-!
# Stretches of characters

Readers of texts cut off the longest front that consists of characters of one sort, such as blanks
or digits. Where such a stretch ends is settled by the character behind it, so a text can be divided
in one way only.
-/

namespace AliasCheck

section Stretches

variable {p : Char → Bool} {front other rest rest' : List Char}

/-- A stretch of characters ends in front of the first one that does not belong to it. -/
theorem takeWhile_append_eq (hfront : ∀ c ∈ front, p c = true)
    (hrest : ∀ c, rest.head? = some c → p c = false) : (front ++ rest).takeWhile p = front := by
  rw [List.takeWhile_append_of_pos hfront]
  cases rest with
  | nil => exact List.append_nil front
  | cons c rest =>
    have hc : ¬ p c = true := Bool.eq_false_iff.mp (hrest c rfl)
    rw [List.takeWhile_cons_of_neg hc, List.append_nil]

theorem dropWhile_append_eq (hfront : ∀ c ∈ front, p c = true)
    (hrest : ∀ c, rest.head? = some c → p c = false) : (front ++ rest).dropWhile p = rest := by
  have hsplit : (front ++ rest).takeWhile p ++ (front ++ rest).dropWhile p = front ++ rest :=
    List.takeWhile_append_dropWhile
  rw [takeWhile_append_eq hfront hrest] at hsplit
  exact List.append_cancel_left hsplit

theorem exists_takeWhile (p : Char → Bool) (cs : List Char) :
    ∃ rest, cs = cs.takeWhile p ++ rest ∧ cs.drop (cs.takeWhile p).length = rest ∧
      (∀ c ∈ cs.takeWhile p, p c = true) ∧ ∀ c, rest.head? = some c → p c = false := by
  have hsplit : cs = cs.takeWhile p ++ cs.dropWhile p := List.takeWhile_append_dropWhile.symm
  refine ⟨cs.dropWhile p, hsplit, ?_, fun c hc => ?_, fun c hc => ?_⟩
  · exact (congrArg (List.drop _) hsplit).trans List.drop_left
  · exact List.all_eq_true.mp List.all_takeWhile c hc
  · have hstop := List.head?_dropWhile_not p cs
    rw [hc] at hstop
    exact hstop

/-- A text begins with one stretch only. -/
theorem stretch_unique (h : front ++ rest = other ++ rest') (hfront : ∀ c ∈ front, p c = true)
    (hother : ∀ c ∈ other, p c = true) (hrest : ∀ c, rest.head? = some c → p c = false)
    (hrest' : ∀ c, rest'.head? = some c → p c = false) : front = other ∧ rest = rest' := by
  have htake := congrArg (List.takeWhile p) h
  rw [takeWhile_append_eq hfront hrest, takeWhile_append_eq hother hrest'] at htake
  subst htake
  exact ⟨rfl, List.append_cancel_left h⟩

end Stretches

/-! ## Digits -/

theorem not_isSpace_of_isDigit {c : Char} (h : c.isDigit = true) : Unicode.isSpace c = false := by
  have hall : ∀ n < 58, 48 ≤ n → Unicode.isSpace (Char.ofNat n) = false := by decide
  simp only [Char.isDigit, Bool.and_eq_true, decide_eq_true_eq] at h
  have hzero : 48 ≤ c.toNat := h.1
  have hnine : c.toNat ≤ 57 := h.2
  have hspace := hall c.toNat (by omega) hzero
  rwa [Char.ofNat_toNat] at hspace

/-- So many digits make a number with no more digits. -/
theorem ofDigitChars_lt {ds : List Char} (h : ∀ d ∈ ds, d.isDigit = true) :
    Nat.ofDigitChars 10 ds 0 < 10 ^ ds.length := by
  induction ds with
  | nil => exact Nat.one_pos
  | cons d ds ih =>
    have hfirst : d.toNat - '0'.toNat ≤ 9 := by
      have hd := h d List.mem_cons_self
      simp only [Char.isDigit, Bool.and_eq_true, decide_eq_true_eq] at hd
      have hnine : d.toNat ≤ '9'.toNat := hd.2
      have hvalues : '9'.toNat = 57 ∧ '0'.toNat = 48 := ⟨rfl, rfl⟩
      omega
    have hrest := ih fun e he => h e (List.mem_cons_of_mem d he)
    have hscaled := Nat.mul_le_mul_left (10 ^ ds.length) hfirst
    rw [Nat.ofDigitChars_cons, Nat.ofDigitChars_eq_ofDigitChars_zero, List.length_cons,
      Nat.pow_succ, Nat.mul_zero, Nat.zero_add]
    omega

end AliasCheck
