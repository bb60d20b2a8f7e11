import Mathlib.Data.List.Basic
import Mathlib.Data.List.DropRight
import TileMachine.Text.Lines

/-! Lines that are written one after the other are read back as they are, provided
none of them holds a line feed or ends in a carriage return. One carriage return at
the end of a line is lost. -/
namespace TileMachine.Text

def IsLine (line : List Char) : Prop :=
  '\n' ∉ line ∧ line.getLast? ≠ some '\r'

instance (line : List Char) : Decidable (IsLine line) :=
  inferInstanceAs (Decidable (_ ∧ _))

theorem lines_cons_of_ne {c : Char} {cs : List Char} (hfeed : c ≠ '\n')
    (hreturn : c = '\r' → cs.head? ≠ some '\n') :
    lines (c :: cs) =
      match lines cs with
      | [] => [[c]]
      | line :: rest => (c :: line) :: rest := by
  refine lines.eq_4 c cs hfeed ?_
  rintro rest rfl rfl
  exact hreturn rfl rfl

theorem lines_of_no_feed {line : List Char} (hne : line ≠ []) (h : '\n' ∉ line) :
    lines line = [line] := by
  induction line with
  | nil => contradiction
  | cons c line ih =>
    rw [List.mem_cons, not_or] at h
    have hnext : c = '\r' → line.head? ≠ some '\n' := fun _ hhead => h.2 (List.mem_of_head? hhead)
    rw [lines_cons_of_ne (Ne.symm h.1) hnext]
    cases line with
    | nil => rfl
    | cons d line => rw [ih (by simp) h.2]

/-- The line without the carriage return that a line feed behind it takes along. -/
def dropReturn (line : List Char) : List Char :=
  if line.getLast? = some '\r' then line.dropLast else line

theorem IsLine.dropReturn {line : List Char} (h : IsLine line) : dropReturn line = line :=
  if_neg h.2

theorem dropReturn_cons {c : Char} {line : List Char} (h : c = '\r' → line ≠ []) :
    dropReturn (c :: line) = c :: dropReturn line := by
  cases line with
  | nil =>
    have hc : c ≠ '\r' := fun hc => h hc rfl
    simp [dropReturn, hc]
  | cons d line =>
    unfold dropReturn
    rw [List.getLast?_cons_cons, List.dropLast_cons_cons]
    split <;> rfl

theorem lines_append_feed {line : List Char} (h : '\n' ∉ line) (rest : List Char) :
    lines (line ++ '\n' :: rest) = dropReturn line :: lines rest := by
  induction line with
  | nil => simp [lines, dropReturn]
  | cons c line ih =>
    have ⟨hfeed, hline⟩ := not_or.1 (mt List.mem_cons.2 h)
    by_cases hreturn : c = '\r' ∧ line = []
    · rw [hreturn.1, hreturn.2]
      simp [lines, dropReturn]
    · have hnext : c = '\r' → (line ++ '\n' :: rest).head? ≠ some '\n' := by
        intro hc hhead
        cases line with
        | nil => exact hreturn ⟨hc, rfl⟩
        | cons d line =>
          have hd : d = '\n' := by simpa using hhead
          rw [hd] at hline
          exact hline List.mem_cons_self
      rw [List.cons_append, lines_cons_of_ne (Ne.symm hfeed) hnext, ih hline,
        dropReturn_cons fun hc hnil => hreturn ⟨hc, hnil⟩]

theorem lines_append_return {line : List Char} (h : '\n' ∉ line) (rest : List Char) :
    lines (line ++ '\r' :: '\n' :: rest) = line :: lines rest := by
  have hfeed : '\n' ∉ line ++ ['\r'] := by simpa using h
  have hdrop : dropReturn (line ++ ['\r']) = line := by simp [dropReturn]
  have hlines := lines_append_feed hfeed rest
  rwa [hdrop, List.append_assoc] at hlines

/-- Induction on the lines of a text. -/
theorem line_induction {motive : List Char → Prop}
    (last : ∀ line, '\n' ∉ line → motive line)
    (feed : ∀ line rest, '\n' ∉ line → motive rest → motive (line ++ '\n' :: rest))
    (cs : List Char) : motive cs := by
  induction hn : cs.length using Nat.strong_induction_on generalizing cs with
  | _ n ih =>
    by_cases h : '\n' ∈ cs
    · obtain ⟨line, rest, rfl, hline⟩ := List.eq_append_cons_of_mem h
      refine feed line rest hline (ih rest.length ?_ rest rfl)
      simp only [List.length_append, List.length_cons] at hn
      omega
    · exact last cs h

theorem lines_append (front back : List Char) :
    lines (front ++ '\n' :: back) = lines (front ++ ['\n']) ++ lines back := by
  induction front using line_induction with
  | last line h =>
    rw [lines_append_feed h, lines_append_feed h]
    rfl
  | feed line rest h ih =>
    simp only [List.append_assoc, List.cons_append, lines_append_feed h, ih]

theorem lines_append_of_start {front : List Char} (h : front = [] ∨ front.getLast? = some '\n')
    (back : List Char) : lines (front ++ back) = lines front ++ lines back := by
  rcases h with rfl | hlast
  · rfl
  · rw [← List.dropLast_append_getLast? '\n' hlast, List.append_assoc, List.singleton_append,
      lines_append]

theorem length_lines {front : List Char} (h : front = [] ∨ front.getLast? = some '\n') :
    (lines front).length = front.count '\n' := by
  induction front using line_induction with
  | last line hline =>
    rcases h with rfl | hlast
    · rfl
    · exact absurd (List.mem_of_getLast? hlast) hline
  | feed line rest hline ih =>
    have hrest : rest = [] ∨ rest.getLast? = some '\n' := by
      by_cases hnil : rest = []
      · exact .inl hnil
      · rw [List.getLast?_append_of_ne_nil _ (by simp), List.getLast?_cons_of_ne_nil hnil] at h
        exact h.imp_left (by simp)
    rw [lines_append_feed hline, List.length_cons, ih hrest, List.count_append,
      List.count_eq_zero_of_not_mem hline, List.count_cons_self, Nat.zero_add]

theorem feed_not_mem_of_mem_lines {cs line : List Char} (h : line ∈ lines cs) : '\n' ∉ line := by
  fun_induction lines cs generalizing line with
  | case1 => contradiction
  | case2 cs ih | case3 cs ih =>
    cases h with
    | head => exact List.not_mem_nil
    | tail _ hline => exact ih hline
  | case4 c cs hfeed _ _ _ =>
    have hline : line = [c] := by simpa using h
    simpa [hline] using Ne.symm hfeed
  | case5 c cs hfeed _ first rest hlines ih =>
    rw [hlines] at ih
    cases h with
    | head =>
      have hfirst := ih List.mem_cons_self
      simpa [hfirst] using Ne.symm hfeed
    | tail _ hline => exact ih (List.mem_cons_of_mem first hline)

theorem toList_unlines_cons (line : String) (ls : List String) :
    (unlines (line :: ls)).toList = line.toList ++ '\n' :: (unlines ls).toList := by
  simp [unlines]

theorem toList_unlines (ls : List String) :
    (unlines ls).toList = ls.flatMap fun line => line.toList ++ ['\n'] := by
  induction ls with
  | nil => simp [unlines]
  | cons line ls ih =>
    rw [toList_unlines_cons, ih]
    simp

theorem lines_unlines_of_no_feed {ls : List String} (h : ∀ line ∈ ls, '\n' ∉ line.toList) :
    lines (unlines ls).toList = ls.map fun line => dropReturn line.toList := by
  induction ls with
  | nil => simp [unlines, lines]
  | cons line ls ih =>
    rw [List.forall_mem_cons] at h
    rw [toList_unlines_cons, lines_append_feed h.1, ih h.2, List.map_cons]

theorem lines_unlines {ls : List String} (h : ∀ line ∈ ls, IsLine line.toList) :
    lines (unlines ls).toList = ls.map String.toList := by
  rw [lines_unlines_of_no_feed fun line hline => (h line hline).1]
  exact List.map_congr_left fun line hline => (h line hline).dropReturn

theorem eq_of_append_cons {mark : Char} {front front' back back' : List Char}
    (hfront : mark ∉ front) (hfront' : mark ∉ front')
    (h : front ++ mark :: back = front' ++ mark :: back') : front = front' ∧ back = back' := by
  induction front generalizing front' with
  | nil =>
    cases front' with
    | nil => simpa using h
    | cons c front' =>
      rw [List.nil_append, List.cons_append, List.cons.injEq] at h
      exact absurd (List.mem_cons.2 (.inl h.1)) hfront'
  | cons c front ih =>
    rw [List.mem_cons, not_or] at hfront
    cases front' with
    | nil =>
      rw [List.nil_append, List.cons_append, List.cons.injEq] at h
      exact absurd h.1.symm hfront.1
    | cons d front' =>
      rw [List.mem_cons, not_or] at hfront'
      rw [List.cons_append, List.cons_append, List.cons.injEq] at h
      obtain ⟨rfl, hback⟩ := ih hfront.2 hfront'.2 h.2
      exact ⟨by rw [h.1], hback⟩

theorem eq_of_unlines_eq {ls ls' : List String} (h : ∀ line ∈ ls, '\n' ∉ line.toList)
    (h' : ∀ line ∈ ls', '\n' ∉ line.toList) (heq : (unlines ls).toList = (unlines ls').toList) :
    ls = ls' := by
  induction ls generalizing ls' with
  | nil =>
    cases ls' with
    | nil => rfl
    | cons line' ls' => simp [toList_unlines] at heq
  | cons line ls ih =>
    cases ls' with
    | nil => simp [toList_unlines] at heq
    | cons line' ls' =>
      rw [List.forall_mem_cons] at h h'
      rw [toList_unlines_cons, toList_unlines_cons] at heq
      obtain ⟨hline, hrest⟩ := eq_of_append_cons h.1 h'.1 heq
      rw [String.toList_inj.1 hline, ih h.2 h'.2 hrest]

/-- The lines up to the last one that is not empty. -/
def kept (ls : List (List Char)) : List (List Char) :=
  ls.rdropWhile List.isEmpty

theorem kept_cons (line : List Char) (ls : List (List Char)) :
    kept (line :: ls) = if kept ls = [] ∧ line = [] then [] else line :: kept ls := by
  unfold kept List.rdropWhile
  rw [List.reverse_cons, List.dropWhile_append]
  cases hrest : ls.reverse.dropWhile List.isEmpty with
  | nil => cases line <;> simp
  | cons last front => simp

theorem mem_of_mem_kept {ls : List (List Char)} {line : List Char} (h : line ∈ kept ls) :
    line ∈ ls :=
  (List.rdropWhile_prefix _ ls).subset h

end TileMachine.Text
