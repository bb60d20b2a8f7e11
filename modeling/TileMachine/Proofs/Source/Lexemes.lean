import TileMachine.Proofs.Source.Words
import TileMachine.Proofs.Text.Bytes

/-! The lexemes of a line make up the line, and none of them is empty. -/
namespace TileMachine.Lexer
open Text

structure Spells (lexemes : List Lexeme) (text : List Char) : Prop where
  text : lexemes.flatMap Lexeme.text = text
  nonempty : ∀ l ∈ lexemes, l.text ≠ []

namespace Spells

variable {as bs : List Lexeme} {a b : List Char}

theorem append (ha : Spells as a) (hb : Spells bs b) : Spells (as ++ bs) (a ++ b) where
  text := by rw [List.flatMap_append, ha.text, hb.text]
  nonempty := List.forall_mem_append.2 ⟨ha.nonempty, hb.nonempty⟩

theorem eq_nil_iff (h : Spells as a) : as = [] ↔ a = [] := by
  have htext := h.text
  cases as with
  | nil => simp [← htext]
  | cons l ls =>
    have hl := h.nonempty l List.mem_cons_self
    simp [← htext, hl]

end Spells

theorem spells_lexeme (kind : TokenKind) (text : List Char) :
    Spells (lexeme kind text) text := by
  unfold lexeme
  split
  next hempty => exact ⟨(List.isEmpty_iff.1 hempty).symm, by simp⟩
  next hempty => exact ⟨by simp, by simpa using hempty⟩

theorem spells_runs (code : List Char) : Spells ((code.splitBy sameRun).map lexRun) code where
  text := by
    rw [List.flatMap_map]
    change (code.splitBy sameRun).flatMap id = code
    rw [List.flatMap_id, List.flatten_splitBy]
  nonempty := by
    intro l hl
    have ⟨run, hrun, heq⟩ := List.mem_map.1 hl
    rw [← heq]
    exact List.ne_nil_of_mem_splitBy hrun

theorem spells_lexCode (code : List Char) : Spells (lexCode code) code := by
  unfold lexCode
  split
  next hcolon =>
    have hne : trimEnd code ≠ [] := List.ne_nil_of_mem (List.mem_of_getLast? hcolon)
    have h := ((spells_lexeme .blank (leading code)).append
      (spells_lexeme .labelDef (trim code))).append (spells_lexeme .blank (trailing code))
    rwa [leading_append_trim hne, trimEnd_append_trailing] at h
  next => exact spells_runs code

theorem splitComment_append (line : List Char) :
    (splitComment line).1 ++ (splitComment line).2 = line := by
  fun_induction splitComment line with
  | case1 => rfl
  | case2 => rfl
  | case3 c cs _ code comment hsplit ih =>
    rw [hsplit] at ih
    exact congrArg (c :: ·) ih

theorem spells_lexLine (inBlock : Bool) (line : List Char) :
    Spells (lexLine inBlock line).1 line := by
  unfold lexLine
  split
  next => exact spells_lexeme .comment line
  split
  next => exact spells_lexeme .comment line
  split
  next => exact spells_lexeme .comment line
  next =>
    have h := (spells_lexCode (splitComment line).1).append
      (spells_lexeme .comment (splitComment line).2)
    rwa [splitComment_append] at h

/-! ### Lines without keywords -/

def Keyless (line : List Char) : Prop :=
  ∀ keyword ∈ ["define", "comment"], startsWithKeyword keyword line = false

theorem startsWithKeyword_eq_false {keyword : String} {line : List Char} {c : Char}
    (hc : c ∈ firstWord line) (h : c.toLower ∉ keyword.toList) :
    startsWithKeyword keyword line = false := by
  unfold startsWithKeyword
  rw [beq_eq_false_iff_ne]
  intro heq
  rw [← heq] at h
  exact h (List.mem_map_of_mem hc)

theorem lexLine_of_keyless {line : List Char} (h : Keyless line) : lexLine false line =
    (lexCode (splitComment line).1 ++ lexeme .comment (splitComment line).2, false) := by
  have hdefine := h "define" (by decide)
  have hcomment := h "comment" (by decide)
  simp only [lexLine, hdefine, hcomment, Bool.false_eq_true, if_false]

theorem place_append (number start : Nat) (as bs : List Lexeme) :
    place number start (as ++ bs) = place number start as ++
      place number (start + byteLength (as.flatMap Lexeme.text)) bs := by
  induction as generalizing start with
  | nil => simp [place]
  | cons a as ih => simp [place, ih, Nat.add_assoc]

end TileMachine.Lexer
