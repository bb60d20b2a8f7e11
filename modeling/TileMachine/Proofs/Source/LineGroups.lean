import Mathlib.Data.List.SplitBy
import TileMachine.Source.Assembly

/-! Tokens are grouped by the lines that they stand on. The lexer numbers its lines
in ascending order, so that reading a text goes line by line. -/
namespace TileMachine

namespace Lexer

/-- The tokens of each line, also of one that has none. -/
def lineTokens (inBlock : Bool) (line : Nat) : List (List Char) → List (List Token)
  | [] => []
  | cs :: rest =>
    place line 0 (lexLine inBlock cs).1 :: lineTokens (lexLine inBlock cs).2 (line + 1) rest

theorem flatten_lineTokens (inBlock : Bool) (line : Nat) (ls : List (List Char)) :
    (lineTokens inBlock line ls).flatten = lexLines inBlock line ls := by
  induction ls generalizing inBlock line with
  | nil => rfl
  | cons cs rest ih => simp only [lineTokens, lexLines, List.flatten_cons, ih]

theorem line_of_mem_place {line start : Nat} {lexemes : List Lexeme} {t : Token}
    (h : t ∈ place line start lexemes) : t.line = line := by
  induction lexemes generalizing start with
  | nil => simp [place] at h
  | cons l ls ih =>
    rw [place, List.mem_cons] at h
    rcases h with rfl | h
    · rfl
    · exact ih h

theorem exists_line_of_mem_lineTokens {inBlock : Bool} {first : Nat} {ls : List (List Char)}
    {group : List Token} (h : group ∈ lineTokens inBlock first ls) : ∃ n line inBlock',
    ls[n]? = some line ∧ group = place (first + n) 0 (lexLine inBlock' line).1 := by
  induction ls generalizing inBlock first with
  | nil => cases h
  | cons cs rest ih =>
    rw [lineTokens, List.mem_cons] at h
    rcases h with rfl | h
    · exact ⟨0, cs, inBlock, rfl, rfl⟩
    · obtain ⟨n, line, inBlock', hline, rfl⟩ := ih h
      refine ⟨n + 1, line, inBlock', hline, ?_⟩
      rw [Nat.add_assoc, Nat.add_comm 1]

theorem le_line_of_mem_lineTokens {inBlock : Bool} {line : Nat} {ls : List (List Char)}
    {group : List Token} {t : Token} (h : group ∈ lineTokens inBlock line ls) (ht : t ∈ group) :
    line ≤ t.line := by
  induction ls generalizing inBlock line with
  | nil => simp [lineTokens] at h
  | cons cs rest ih =>
    rw [lineTokens, List.mem_cons] at h
    rcases h with rfl | h
    · rw [line_of_mem_place ht]
    · exact Nat.le_of_succ_le (ih h)

theorem line_eq_of_mem_lineTokens {inBlock : Bool} {line : Nat} {ls : List (List Char)}
    {group : List Token} (h : group ∈ lineTokens inBlock line ls) :
    ∃ n, ∀ t ∈ group, t.line = n := by
  induction ls generalizing inBlock line with
  | nil => simp [lineTokens] at h
  | cons cs rest ih =>
    rw [lineTokens, List.mem_cons] at h
    rcases h with rfl | h
    · exact ⟨line, fun t => line_of_mem_place⟩
    · exact ih h

theorem line_of_getElem?_lineTokens {inBlock : Bool} {first : Nat} {ls : List (List Char)} {n : Nat}
    {group : List Token} (h : (lineTokens inBlock first ls)[n]? = some group) {t : Token}
    (ht : t ∈ group) : t.line = first + n := by
  induction ls generalizing inBlock first n with
  | nil => simp [lineTokens] at h
  | cons cs rest ih =>
    cases n with
    | zero =>
      rw [lineTokens, List.getElem?_cons_zero, Option.some.injEq] at h
      rw [← h] at ht
      exact line_of_mem_place ht
    | succ n =>
      rw [lineTokens, List.getElem?_cons_succ] at h
      rw [ih h, Nat.add_assoc, Nat.add_comm 1]

theorem lineTokens_take (inBlock : Bool) (first : Nat) (ls : List (List Char)) (k : Nat) :
    lineTokens inBlock first (ls.take k) = (lineTokens inBlock first ls).take k := by
  induction ls generalizing inBlock first k with
  | nil => simp [lineTokens]
  | cons line ls ih =>
    cases k with
    | zero => rfl
    | succ k => simp only [lineTokens, List.take_succ_cons, ih]

theorem pairwise_lineTokens (inBlock : Bool) (line : Nat) (ls : List (List Char)) :
    (lineTokens inBlock line ls).Pairwise fun a b => ∀ s ∈ a, ∀ t ∈ b, s.line < t.line := by
  induction ls generalizing inBlock line with
  | nil => exact .nil
  | cons cs rest ih =>
    rw [lineTokens, List.pairwise_cons]
    refine ⟨fun group hgroup s hs t ht => ?_, ih _ _⟩
    rw [line_of_mem_place hs]
    exact le_line_of_mem_lineTokens hgroup ht

theorem splitBy_lexLines (inBlock : Bool) (line : Nat) (ls : List (List Char)) :
    (lexLines inBlock line ls).splitBy (fun s t => s.line == t.line) =
      (lineTokens inBlock line ls).filter (· ≠ []) := by
  rw [← flatten_lineTokens, ← List.flatten_filter_ne_nil]
  apply List.splitBy_flatten
  · simp
  · intro group hgroup
    obtain ⟨n, hn⟩ := line_eq_of_mem_lineTokens (List.mem_of_mem_filter hgroup)
    refine List.Pairwise.isChain (List.pairwise_of_forall_mem_list fun s hs t ht => ?_)
    rw [hn s hs, hn t ht, beq_self_eq_true]
  · have hsorted := (pairwise_lineTokens inBlock line ls).filter (· ≠ [])
    refine List.Pairwise.isChain (hsorted.imp_of_mem fun {a b} ha hb hlt => ?_)
    have hne {group : List Token}
        (h : group ∈ (lineTokens inBlock line ls).filter (· ≠ [])) : group ≠ [] := by
      simpa using List.of_mem_filter h
    refine ⟨hne ha, hne hb, ?_⟩
    rw [beq_eq_false_iff_ne]
    exact Nat.ne_of_lt (hlt _ (List.getLast_mem (hne ha)) _ (List.head_mem (hne hb)))

end Lexer

namespace Draft

@[simp] theorem addLine_nil (d : Draft) : d.addLine [] = .ok d := rfl

theorem foldlM_filter_ne_nil (d : Draft) (groups : List (List Token)) :
    (groups.filter (· ≠ [])).foldlM addLine d = groups.foldlM addLine d := by
  induction groups generalizing d with
  | nil => rfl
  | cons group groups ih =>
    by_cases hne : group = []
    · subst hne
      rw [List.filter_cons_of_neg (by simp), ih, List.foldlM_cons, addLine_nil]
      rfl
    · rw [List.filter_cons_of_pos (by simpa using hne), List.foldlM_cons, List.foldlM_cons]
      exact congrArg _ (funext fun d' => ih d')

theorem ofTokens_lexLines (inBlock : Bool) (line : Nat) (ls : List (List Char)) :
    ofTokens (Lexer.lexLines inBlock line ls) =
      (Lexer.lineTokens inBlock line ls).foldlM addLine {} := by
  unfold ofTokens
  rw [Lexer.splitBy_lexLines, foldlM_filter_ne_nil]

end Draft

theorem Program.parse_eq (source : String) : Program.parse source =
    (Lexer.lineTokens false 1 (Text.lines source.toList)).foldlM Draft.addLine {} >>=
      Draft.finish := by
  unfold Program.parse Program.ofTokens Lexer.tokenize
  rw [Draft.ofTokens_lexLines]

end TileMachine
