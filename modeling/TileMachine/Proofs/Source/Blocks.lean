import TileMachine.Proofs.Source.LineGroups
import TileMachine.Proofs.Source.Reading

/-! The lexer carries one bit from line to line: whether a block is open. It is set
exactly on the lines that an earlier line's block reaches, so the lines that the
lexer turns into comments are the skipped ones, and the others are read as the
grammar says. -/
namespace TileMachine

namespace Grammar
open Text

variable {ls : List (List Char)} {n : Nat} {line : List Char}

/-- Line `n` is in a block that an earlier line opens. -/
def Inside (ls : List (List Char)) (n : Nat) : Prop :=
  ∃ first < n, Opens ls first ∧ Reaches ls first n

theorem not_inside_zero : ¬Inside ls 0 := by
  rintro ⟨first, hlt, -⟩
  omega

theorem opens_iff (hline : ls[n]? = some line) :
    Opens ls n ↔ StartsWith "define" line ∧ ¬Inside ls n := by
  rw [Opens]
  constructor
  · rintro ⟨⟨other, hother, hstarts⟩, houtside⟩
    rw [hline, Option.some.injEq] at hother
    subst hother
    refine ⟨hstarts, ?_⟩
    rintro ⟨first, hlt, hopens, hreaches⟩
    exact houtside first hlt hopens hreaches
  · rintro ⟨hstarts, houtside⟩
    exact ⟨⟨line, hline, hstarts⟩, fun m hm hopens hreaches => houtside ⟨m, hm, hopens, hreaches⟩⟩

theorem reaches_self : Reaches ls n n :=
  ⟨Nat.le_refl n, fun _ _ hle hlt => absurd hlt (Nat.not_lt.2 hle)⟩

theorem reaches_succ {first : Nat} (hline : ls[n]? = some line) (hle : first ≤ n) :
    Reaches ls first (n + 1) ↔ Reaches ls first n ∧ (trim line).getLast? ≠ some ';' ∧
      (first < n → trim line ≠ []) := by
  constructor
  · rintro ⟨-, hopen⟩
    exact ⟨⟨hle, fun k other hk hlt => hopen k other hk (by omega)⟩, hopen n line hle (by omega) hline⟩
  · rintro ⟨⟨-, hopen⟩, hlast⟩
    refine ⟨by omega, fun k other hk hlt hother => ?_⟩
    by_cases hkn : k = n
    · subst hkn
      rw [hline, Option.some.injEq] at hother
      exact hother ▸ hlast
    · exact hopen k other hk (by omega) hother

theorem inside_succ (hline : ls[n]? = some line) : Inside ls (n + 1) ↔
    (trim line).getLast? ≠ some ';' ∧
      (Inside ls n ∧ trim line ≠ [] ∨ ¬Inside ls n ∧ StartsWith "define" line) := by
  constructor
  · rintro ⟨first, hlt, hopens, hreaches⟩
    have hle : first ≤ n := by omega
    obtain ⟨hreaches, hsemicolon, hblank⟩ := (reaches_succ hline hle).1 hreaches
    refine ⟨hsemicolon, ?_⟩
    by_cases hfirst : first = n
    · subst hfirst
      obtain ⟨hstarts, houtside⟩ := (opens_iff hline).1 hopens
      exact .inr ⟨houtside, hstarts⟩
    · have hlt : first < n := by omega
      exact .inl ⟨⟨first, hlt, hopens, hreaches⟩, hblank hlt⟩
  · rintro ⟨hsemicolon, ⟨⟨first, hlt, hopens, hreaches⟩, hblank⟩ | ⟨houtside, hstarts⟩⟩
    · refine ⟨first, by omega, hopens, ?_⟩
      exact (reaches_succ hline (by omega)).2 ⟨hreaches, hsemicolon, fun _ => hblank⟩
    · refine ⟨n, by omega, (opens_iff hline).2 ⟨hstarts, houtside⟩, ?_⟩
      refine (reaches_succ hline (Nat.le_refl n)).2 ⟨reaches_self, hsemicolon, fun hlt => ?_⟩
      exact absurd hlt (Nat.lt_irrefl n)

theorem inBlock_iff (hline : ls[n]? = some line) :
    InBlock ls n ↔ Inside ls n ∨ StartsWith "define" line := by
  constructor
  · rintro ⟨first, hopens, hreaches⟩
    by_cases hfirst : first = n
    · subst hfirst
      exact .inr ((opens_iff hline).1 hopens).1
    · have hle := hreaches.1
      exact .inl ⟨first, by omega, hopens, hreaches⟩
  · intro h
    by_cases hinside : Inside ls n
    · obtain ⟨first, -, hopens, hreaches⟩ := hinside
      exact ⟨first, hopens, hreaches⟩
    · exact ⟨n, (opens_iff hline).2 ⟨h.resolve_left hinside, hinside⟩, reaches_self⟩

theorem skipped_iff (hline : ls[n]? = some line) : Skipped ls n ↔
    Inside ls n ∨ StartsWith "define" line ∨ StartsWith "comment" line := by
  unfold Skipped
  rw [inBlock_iff hline, or_assoc]
  refine or_congr_right (or_congr_right ⟨?_, fun h => ⟨line, hline, h⟩⟩)
  rintro ⟨other, hother, hstarts⟩
  rw [hline, Option.some.injEq] at hother
  exact hother ▸ hstarts

theorem tells_iff {phrase : Option Phrase} (hline : ls[n]? = some line) : Tells ls n phrase ↔
    Skipped ls n ∧ phrase = none ∨ ¬Skipped ls n ∧ Says line phrase := by
  unfold Tells SaysAt
  rw [or_comm]
  refine or_congr_right ⟨?_, fun h => ⟨line, hline, h⟩⟩
  rintro ⟨other, hother, h⟩
  rw [hline, Option.some.injEq] at hother
  exact hother ▸ h

end Grammar

namespace Lexer
open Text Grammar

theorem startsWithKeyword_iff {keyword : String} {line : List Char} :
    startsWithKeyword keyword line = true ↔ StartsWith keyword line :=
  beq_iff_eq

theorem endsWithSemicolon_iff {line : List Char} :
    endsWithSemicolon line = true ↔ (trim line).getLast? = some ';' := by
  rw [getLast?_trim]
  exact beq_iff_eq

def blockAfter (inBlock : Bool) (ls : List (List Char)) : Bool :=
  ls.foldl (fun open? line => (lexLine open? line).2) inBlock

theorem blockAfter_concat (inBlock : Bool) (ls : List (List Char)) (line : List Char) :
    blockAfter inBlock (ls ++ [line]) = (lexLine (blockAfter inBlock ls) line).2 := by
  simp [blockAfter]

theorem lineTokens_append (inBlock : Bool) (first : Nat) (front back : List (List Char)) :
    lineTokens inBlock first (front ++ back) = lineTokens inBlock first front ++
      lineTokens (blockAfter inBlock front) (first + front.length) back := by
  induction front generalizing inBlock first with
  | nil => rfl
  | cons line front ih =>
    have hline : first + (front.length + 1) = first + 1 + front.length := by omega
    simp only [List.cons_append, lineTokens, ih, List.length_cons, hline]
    rfl

theorem lexLine_snd_iff (inBlock : Bool) (line : List Char) : (lexLine inBlock line).2 = true ↔
    (trim line).getLast? ≠ some ';' ∧
      (inBlock = true ∧ trim line ≠ [] ∨ ¬inBlock = true ∧ StartsWith "define" line) := by
  unfold lexLine
  rw [ne_eq, ← endsWithSemicolon_iff, ← startsWithKeyword_iff]
  cases inBlock with
  | true => simp [and_comm]
  | false =>
    by_cases hdefine : startsWithKeyword "define" line = true
    · simp [hdefine]
    · by_cases hcomment : startsWithKeyword "comment" line = true
      · simp [hdefine, hcomment]
      · simp [hdefine, hcomment]

theorem blockAfter_iff_inside {front rest : List (List Char)} :
    blockAfter false front = true ↔ Inside (front ++ rest) front.length := by
  induction front using List.reverseRecOn generalizing rest with
  | nil => simp [blockAfter, not_inside_zero]
  | append_singleton front line ih =>
    have hline : (front ++ [line] ++ rest)[front.length]? = some line := by simp
    rw [blockAfter_concat, lexLine_snd_iff, List.length_append, List.length_singleton,
      inside_succ hline, List.append_assoc, ih]

theorem speaks_lexLine {ls : List (List Char)} {n number : Nat} {inBlock : Bool} {line : List Char}
    {phrase : Option Phrase} (hline : ls[n]? = some line)
    (hinside : inBlock = true ↔ Inside ls n) :
    Statement.Speaks (place number 0 (lexLine inBlock line).1) phrase ↔ Tells ls n phrase := by
  have hcomment (text : List Char) :
      Statement.Speaks (place number 0 (lexeme .comment text)) phrase ↔ phrase = none := by
    apply Statement.speaks_of_nil
    rw [← List.map_eq_nil_iff, map_lexeme_filter_place, filter_lexeme_comment]
  rw [tells_iff hline, skipped_iff hline, ← hinside, ← startsWithKeyword_iff,
    ← startsWithKeyword_iff]
  unfold lexLine
  by_cases hblock : inBlock = true
  · simp [hblock, hcomment]
  · by_cases hdefine : startsWithKeyword "define" line = true
    · simp [hblock, hdefine, hcomment]
    · by_cases hskip : startsWithKeyword "comment" line = true
      · simp [hblock, hdefine, hskip, hcomment]
      · simp only [hblock, hdefine, hskip, Bool.false_eq_true, ↓reduceIte, or_self, not_false_eq_true,
          false_and, true_and, false_or]
        rw [Statement.speaks_code, says_iff]

theorem forall₂_speaks_iff {front rest : List (List Char)} {said : List (Option Phrase)} :
    List.Forall₂ Statement.Speaks
        (lineTokens (blockAfter false front) (front.length + 1) rest) said ↔
      said.length = rest.length ∧ ∀ k phrase, said[k]? = some phrase →
        Tells (front ++ rest) (front.length + k) phrase := by
  induction rest generalizing front said with
  | nil =>
    rw [lineTokens, List.forall₂_nil_left_iff, List.length_nil, List.length_eq_zero_iff]
    constructor
    · rintro rfl
      simp
    · exact fun h => h.1
  | cons line rest ih =>
    have hline : (front ++ line :: rest)[front.length]? = some line := by simp
    rw [lineTokens, ← blockAfter_concat]
    cases said with
    | nil => simp
    | cons first said =>
      have htail := @ih (front ++ [line]) said
      rw [List.length_append, List.length_singleton, List.append_assoc,
        List.singleton_append] at htail
      rw [List.forall₂_cons, htail, speaks_lexLine hline blockAfter_iff_inside, List.length_cons,
        List.length_cons, Nat.add_right_cancel_iff]
      constructor
      · rintro ⟨hfirst, hlength, hrest⟩
        refine ⟨hlength, fun k phrase hk => ?_⟩
        cases k with
        | zero =>
          rw [List.getElem?_cons_zero, Option.some.injEq] at hk
          exact hk ▸ hfirst
        | succ k =>
          have hindex : front.length + (k + 1) = front.length + 1 + k := by omega
          rw [hindex]
          exact hrest k phrase (by rwa [List.getElem?_cons_succ] at hk)
      · rintro ⟨hlength, htells⟩
        refine ⟨htells 0 first rfl, hlength, fun k phrase hk => ?_⟩
        have hindex : front.length + 1 + k = front.length + (k + 1) := by omega
        rw [hindex]
        exact htells (k + 1) phrase (by rwa [List.getElem?_cons_succ])

theorem reads_iff {ls : List (List Char)} {said : List (Option Phrase)} :
    Reads ls said ↔ List.Forall₂ Statement.Speaks (lineTokens false 1 ls) said := by
  have h := @forall₂_speaks_iff [] ls said
  simp only [List.length_nil, Nat.zero_add, List.nil_append] at h
  exact h.symm

end Lexer
end TileMachine
