import Mathlib.Data.List.Infix
import Mathlib.Data.List.TakeWhile
import TileMachine.Text.Blank

/-! Trimming takes blanks off both ends and nothing else. What is left starts and
ends with a character that is not blank, and is a contiguous part of the text. -/
namespace TileMachine.Text

theorem isBlank_of_mem_leading {cs : List Char} {c : Char} (h : c ∈ leading cs) :
    isBlank c = true :=
  List.mem_takeWhile_imp h

theorem isBlank_of_mem_trailing {cs : List Char} {c : Char} (h : c ∈ trailing cs) :
    isBlank c = true := by
  unfold trailing at h
  exact List.mem_takeWhile_imp (List.mem_reverse.1 h)

theorem head?_trimStart_not_blank {cs : List Char} {c : Char} (h : (trimStart cs).head? = some c) :
    isBlank c = false := by
  have hhead := List.head?_dropWhile_not isBlank cs
  unfold trimStart at h
  rw [h] at hhead
  simpa using hhead

theorem getLast?_trimEnd_not_blank {cs : List Char} {c : Char}
    (h : (trimEnd cs).getLast? = some c) : isBlank c = false := by
  unfold trimEnd at h
  rw [List.getLast?_reverse] at h
  change (trimStart cs.reverse).head? = some c at h
  exact head?_trimStart_not_blank h

theorem trimEnd_append (front back : List Char) :
    trimEnd (front ++ back) =
      if (trimEnd back).isEmpty then trimEnd front else front ++ trimEnd back := by
  unfold trimEnd
  rw [List.reverse_append, List.dropWhile_append]
  cases h : back.reverse.dropWhile isBlank with
  | nil => simp
  | cons c rest => simp

theorem trimStart_eq_nil {cs : List Char} (h : ∀ c ∈ cs, isBlank c = true) : trimStart cs = [] :=
  List.dropWhile_eq_nil_iff.2 h

theorem trimEnd_eq_nil {cs : List Char} (h : ∀ c ∈ cs, isBlank c = true) : trimEnd cs = [] := by
  unfold trimEnd
  rw [List.reverse_eq_nil_iff]
  exact trimStart_eq_nil fun c hc => h c (List.mem_reverse.1 hc)

theorem trimStart_eq_self {cs : List Char} (h : ∀ c, cs.head? = some c → isBlank c = false) :
    trimStart cs = cs := by
  cases cs with
  | nil => rfl
  | cons c rest => simp [trimStart, h c rfl]

theorem trimEnd_eq_self {cs : List Char} (h : ∀ c, cs.getLast? = some c → isBlank c = false) :
    trimEnd cs = cs := by
  have hstart : trimStart cs.reverse = cs.reverse :=
    trimStart_eq_self fun c hc => h c (by rwa [List.head?_reverse] at hc)
  change (trimStart cs.reverse).reverse = cs
  rw [hstart, List.reverse_reverse]

theorem head?_trimEnd {cs : List Char} {c : Char} (hc : isBlank c = false)
    (h : cs.head? = some c) : (trimEnd cs).head? = some c := by
  obtain ⟨rest, rfl⟩ := List.head?_eq_some_iff.1 h
  have hself : trimEnd [c] = [c] := by
    apply trimEnd_eq_self
    rintro _ ⟨⟩
    exact hc
  have happend := trimEnd_append [c] rest
  rw [hself] at happend
  rw [← List.singleton_append, happend]
  split <;> rfl

theorem trimEnd_eq_trim_of_leading (cs : List Char) : trimEnd cs =
    if (trim cs).isEmpty then [] else leading cs ++ trim cs := by
  conv_lhs => rw [← leading_append_trimStart cs]
  rw [trimEnd_append, trimEnd_eq_nil fun c hc => isBlank_of_mem_leading hc]
  rfl

theorem leading_append_trim {cs : List Char} (h : trimEnd cs ≠ []) :
    leading cs ++ trim cs = trimEnd cs := by
  rw [trimEnd_eq_trim_of_leading] at h ⊢
  split at h
  next => contradiction
  next hne => rw [if_neg hne]

theorem getLast?_trim (cs : List Char) : (trim cs).getLast? = (trimEnd cs).getLast? := by
  rw [trimEnd_eq_trim_of_leading]
  cases h : trim cs with
  | nil => rfl
  | cons c rest => exact (List.getLast?_append_of_ne_nil _ (List.cons_ne_nil c rest)).symm

theorem getLast?_trim_not_blank {cs : List Char} {c : Char} (h : (trim cs).getLast? = some c) :
    isBlank c = false :=
  getLast?_trimEnd_not_blank h

theorem exists_eq_append_trim (cs : List Char) : ∃ front back, cs = front ++ trim cs ++ back ∧
    (∀ c ∈ front, isBlank c = true) ∧ ∀ c ∈ back, isBlank c = true := by
  refine ⟨leading cs, trailing (trimStart cs), ?_, fun c => isBlank_of_mem_leading,
    fun c => isBlank_of_mem_trailing⟩
  rw [List.append_assoc]
  change cs = leading cs ++ (trimEnd (trimStart cs) ++ trailing (trimStart cs))
  rw [trimEnd_append_trailing, leading_append_trimStart]

theorem trim_eq_nil_iff {cs : List Char} : trim cs = [] ↔ ∀ c ∈ cs, isBlank c = true := by
  constructor
  · intro hnil c hc
    obtain ⟨front, back, hcs, hfront, hback⟩ := exists_eq_append_trim cs
    rw [hcs, hnil, List.append_nil, List.mem_append] at hc
    exact hc.elim (hfront c) (hback c)
  · intro h
    rw [trim, trimStart_eq_nil h]
    rfl

theorem isInfix_trim (cs : List Char) : trim cs <:+: cs := by
  obtain ⟨front, back, hcs, -, -⟩ := exists_eq_append_trim cs
  exact ⟨front, back, hcs.symm⟩

theorem trim_eq_self {cs : List Char} (hhead : ∀ c, cs.head? = some c → isBlank c = false)
    (hlast : ∀ c, cs.getLast? = some c → isBlank c = false) : trim cs = cs := by
  unfold trim
  rw [trimStart_eq_self hhead, trimEnd_eq_self hlast]

theorem trim_blanks_append {front cs : List Char} (h : ∀ c ∈ front, isBlank c = true) :
    trim (front ++ cs) = trim cs := by
  unfold trim trimStart
  rw [List.dropWhile_append_of_pos h]

@[simp] theorem trimEnd_trimEnd (cs : List Char) : trimEnd (trimEnd cs) = trimEnd cs :=
  trimEnd_eq_self fun _ => getLast?_trimEnd_not_blank

@[simp] theorem trailing_trimEnd (cs : List Char) : trailing (trimEnd cs) = [] := by
  have h := trimEnd_append_trailing (trimEnd cs)
  rwa [trimEnd_trimEnd, List.append_right_eq_self] at h

theorem trimStart_eq_trimStart_trimEnd (cs : List Char) :
    trimStart cs = if (trimStart (trimEnd cs)).isEmpty then [] else
      trimStart (trimEnd cs) ++ trailing cs := by
  conv_lhs => rw [← trimEnd_append_trailing cs]
  unfold trimStart
  rw [List.dropWhile_append]
  split
  next => exact trimStart_eq_nil fun c => isBlank_of_mem_trailing
  next => rfl

@[simp] theorem trim_trimEnd (cs : List Char) : trim (trimEnd cs) = trim cs := by
  unfold trim
  rw [trimStart_eq_trimStart_trimEnd cs]
  split
  next hempty => rw [List.isEmpty_iff.1 hempty]
  next =>
    rw [trimEnd_append, trimEnd_eq_nil fun c => isBlank_of_mem_trailing]
    rfl

@[simp] theorem firstWord_trimEnd (cs : List Char) : firstWord (trimEnd cs) = firstWord cs := by
  unfold firstWord
  rw [trimStart_eq_trimStart_trimEnd cs]
  split
  next hempty => rw [List.isEmpty_iff.1 hempty]
  next =>
    have hblank : (trailing cs).takeWhile (!isBlank ·) = [] := by
      cases htrailing : trailing cs with
      | nil => rfl
      | cons c rest =>
        have hc : isBlank c = true := isBlank_of_mem_trailing (htrailing ▸ List.mem_cons_self)
        exact List.takeWhile_cons_of_neg (by simp [hc])
    rw [List.takeWhile_append, hblank, List.append_nil]
    split
    next hlength => exact (List.takeWhile_prefix _).eq_of_length hlength
    next => rfl

theorem trim_of_no_blank {cs : List Char} (h : ∀ c ∈ cs, isBlank c = false) : trim cs = cs :=
  trim_eq_self (fun c hc => h c (List.mem_of_head? hc)) fun c hc => h c (List.mem_of_getLast? hc)

/-! ### Words among blanks -/

theorem trimStart_append_of_no_blank {word : List Char} (hne : word ≠ [])
    (h : ∀ c ∈ word, isBlank c = false) (rest : List Char) :
    trimStart (word ++ rest) = word ++ rest := by
  apply trimStart_eq_self
  intro c hc
  rw [List.head?_append_of_ne_nil _ hne] at hc
  exact h c (List.mem_of_head? hc)

theorem trimEnd_append_of_no_blank {word : List Char} (hne : word ≠ [])
    (h : ∀ c ∈ word, isBlank c = false) (front : List Char) :
    trimEnd (front ++ word) = front ++ word := by
  apply trimEnd_eq_self
  intro c hc
  rw [List.getLast?_append_of_ne_nil _ hne] at hc
  exact h c (List.mem_of_getLast? hc)

theorem firstWord_blanks_append {front : List Char} (h : ∀ c ∈ front, isBlank c = true)
    (rest : List Char) : firstWord (front ++ rest) = firstWord rest := by
  unfold firstWord trimStart
  rw [List.dropWhile_append_of_pos h]

theorem firstWord_append_of_no_blank {word : List Char} (hne : word ≠ [])
    (h : ∀ c ∈ word, isBlank c = false) (rest : List Char) :
    firstWord (word ++ rest) = word ++ rest.takeWhile (!isBlank ·) := by
  unfold firstWord
  rw [trimStart_append_of_no_blank hne h, List.takeWhile_append_of_pos]
  intro c hc
  rw [h c hc]
  rfl

theorem firstWord_eq {front word rest : List Char} (hfront : ∀ c ∈ front, isBlank c = true)
    (hne : word ≠ []) (hword : ∀ c ∈ word, isBlank c = false)
    (hrest : ∀ c, rest.head? = some c → isBlank c = true) :
    firstWord (front ++ word ++ rest) = word := by
  have hstop : rest.takeWhile (!isBlank ·) = [] := by
    cases rest with
    | nil => rfl
    | cons d rest => exact List.takeWhile_cons_of_neg (by simp [hrest d rfl])
  rw [List.append_assoc, firstWord_blanks_append hfront, firstWord_append_of_no_blank hne hword,
    hstop, List.append_nil]

theorem trimStart_append {front : List Char} (h : trimStart front ≠ []) (rest : List Char) :
    trimStart (front ++ rest) = trimStart front ++ rest := by
  unfold trimStart at h ⊢
  rw [List.dropWhile_append, if_neg (by simpa using h)]

theorem firstWord_append_blank {front : List Char} (h : trimStart front ≠ []) {c : Char}
    (hc : isBlank c = true) (rest : List Char) : firstWord (front ++ c :: rest) = firstWord front := by
  have hstop : (c :: rest).takeWhile (!isBlank ·) = [] :=
    List.takeWhile_cons_of_neg (by simp [hc])
  unfold firstWord
  rw [trimStart_append h, List.takeWhile_append, hstop, List.append_nil]
  split
  next hlength => exact ((List.takeWhile_prefix _).eq_of_length hlength).symm
  next => rfl

/-- A text that is not blank has the first word of the whole, or all of it belongs to that
word. -/
theorem firstWord_append_cases {front : List Char} (h : trimStart front ≠ []) :
    (∀ rest, firstWord (front ++ rest) = firstWord front) ∨
      ∀ rest, ∀ c ∈ trimStart front, c ∈ firstWord (front ++ rest) := by
  unfold firstWord
  simp only [trimStart_append h, List.takeWhile_append]
  by_cases hfull : ((trimStart front).takeWhile (!isBlank ·)).length = (trimStart front).length
  · refine .inr fun rest c hc => ?_
    rw [if_pos hfull]
    exact List.mem_append_left _ hc
  · exact .inl fun rest => if_neg hfull

theorem getLast?_trimEnd_replace {front w w' back : List Char} {c : Char}
    (h : (trimEnd (front ++ w ++ back)).getLast? ≠ some c) (hne : w' ≠ [])
    (hw' : ∀ d ∈ w', isBlank d = false) (hlast : w'.getLast? ≠ some c) :
    (trimEnd (front ++ w' ++ back)).getLast? ≠ some c := by
  rw [trimEnd_append] at h ⊢
  by_cases hback : (trimEnd back).isEmpty = true
  · rw [if_pos hback, trimEnd_append_of_no_blank hne hw', List.getLast?_append_of_ne_nil _ hne]
    exact hlast
  · have hrest : trimEnd back ≠ [] := by simpa using hback
    rw [if_neg hback, List.getLast?_append_of_ne_nil _ hrest] at h ⊢
    exact h

section Around
variable {front word back : List Char} (hfront : ∀ c ∈ front, isBlank c = true)
  (hback : ∀ c ∈ back, isBlank c = true) (hne : word ≠ []) (hword : ∀ c ∈ word, isBlank c = false)
include hback hne hword

theorem trimEnd_blanks_around : trimEnd (front ++ word ++ back) = front ++ word := by
  rw [trimEnd_append, trimEnd_eq_nil hback]
  exact trimEnd_append_of_no_blank hne hword front

theorem trailing_blanks_around : trailing (front ++ word ++ back) = back := by
  have h := trimEnd_append_trailing (front ++ word ++ back)
  rw [trimEnd_blanks_around hback hne hword] at h
  exact List.append_cancel_left h

include hfront

theorem trim_blanks_around : trim (front ++ word ++ back) = word := by
  have hend : trimEnd ([] ++ word ++ back) = [] ++ word :=
    trimEnd_blanks_around hback hne hword
  rw [List.append_assoc, trim_blanks_append hfront, trim, trimStart_append_of_no_blank hne hword]
  exact hend

theorem leading_blanks_around : leading (front ++ word ++ back) = front := by
  have hend : trimEnd (front ++ word ++ back) = front ++ word :=
    trimEnd_blanks_around hback hne hword
  have hnil : trimEnd (front ++ word ++ back) ≠ [] := by
    rw [hend]
    simp [hne]
  have h := leading_append_trim hnil
  rw [trim_blanks_around hfront hback hne hword, hend] at h
  exact List.append_cancel_right h

end Around
end TileMachine.Text
