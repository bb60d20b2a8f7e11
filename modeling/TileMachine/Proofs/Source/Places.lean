import Mathlib.Data.List.SplitBy
import TileMachine.Proofs.Source.Relocation

/-! What tokens are read as does not depend on where they stand in their lines. A program
has no use for spans, and of a complaint they change nothing but the span. -/
namespace TileMachine

def Token.unplaced (t : Token) : Token :=
  { t with span := ⟨0, 0⟩ }

def ParseError.told (e : ParseError) : Nat × ParseError.Cause :=
  (e.line, e.cause)

def Argument.unplaced : Argument → Argument
  | .label name _ => .label name ⟨0, 0⟩
  | argument => argument

def Operation.unplaced (op : Operation) : Operation :=
  { op with argument := op.argument.unplaced }

def Draft.unplaced (d : Draft) : Draft :=
  { d with operations := d.operations.map Operation.unplaced }

open ParseError (told)

def Relocation.unplacing : Relocation :=
  ⟨id, fun _ => ⟨0, 0⟩, fun _ _ => rfl⟩

theorem Operation.told_resolve (labels : Labels) (op : Operation) :
    (op.unplaced.resolve labels).mapError told = (op.resolve labels).mapError told := by
  obtain ⟨opcode, argument, line⟩ := op
  cases argument with
  | nothing => rfl
  | tile address => rfl
  | label name span =>
    simp only [resolve, unplaced, Argument.unplaced]
    split <;> rfl

namespace Draft

theorem told_addLine (d : Draft) (tokens : List Token) :
    (d.unplaced.addLine (tokens.map Token.unplaced)).mapError told =
      Draft.unplaced <$> (d.addLine tokens).mapError told := by
  have hadd : d.unplaced.addLine (tokens.map Token.unplaced) =
      Draft.unplaced <$> (d.addLine tokens).mapError (ParseError.relocate .unplacing) := by
    apply addLine_relocate .unplacing
    intro opcode argument line _
    cases argument <;> rfl
  rw [hadd, mapError_map, mapError_mapError]
  rfl

theorem told_foldlM (d : Draft) (groups : List (List Token)) :
    ((groups.map (List.map Token.unplaced)).foldlM addLine d.unplaced).mapError told =
      Draft.unplaced <$> (groups.foldlM addLine d).mapError told := by
  induction groups generalizing d with
  | nil => rfl
  | cons group groups ih =>
    rw [List.map_cons, List.foldlM_cons, List.foldlM_cons, mapError_bind, mapError_bind,
      told_addLine, bind_map_left, map_bind]
    apply congrArg
    funext d'
    exact ih d'

theorem told_finish (d : Draft) : d.unplaced.finish.mapError told = d.finish.mapError told :=
  mapError_finish (f := Operation.unplaced) (fun _ => rfl) Operation.told_resolve d

theorem splitBy_unplaced (tokens : List Token) :
    (tokens.map Token.unplaced).splitBy (fun s t => s.line == t.line) =
      (tokens.splitBy fun s t => s.line == t.line).map (List.map Token.unplaced) := by
  rw [List.splitBy_eq_iff]
  refine ⟨?_, ?_, ?_, ?_⟩
  · rw [← List.map_flatten, List.flatten_splitBy]
  · simp [List.nil_notMem_splitBy]
  · intro group hgroup
    obtain ⟨others, hothers, rfl⟩ := List.mem_map.1 hgroup
    rw [List.isChain_map]
    exact List.isChain_of_mem_splitBy hothers
  · rw [List.isChain_map]
    apply (List.isChain_getLast_head_splitBy _ tokens).imp
    intro a b h
    obtain ⟨ha, hb, hline⟩ := h
    refine ⟨by simpa using ha, by simpa using hb, ?_⟩
    rw [List.getLast_map, List.head_map]
    exact hline

end Draft

theorem Program.told_ofTokens (tokens : List Token) :
    (Program.ofTokens (tokens.map Token.unplaced)).mapError told =
      (Program.ofTokens tokens).mapError told := by
  have hdraft : (Draft.ofTokens (tokens.map Token.unplaced)).mapError told =
      Draft.unplaced <$> (Draft.ofTokens tokens).mapError told := by
    have hempty : Draft.unplaced {} = {} := by simp [Draft.unplaced]
    have hfold := Draft.told_foldlM {} (tokens.splitBy fun s t => s.line == t.line)
    rw [hempty, ← Draft.splitBy_unplaced] at hfold
    exact hfold
  unfold Program.ofTokens
  rw [mapError_bind, mapError_bind, hdraft, bind_map_left]
  apply congrArg
  funext d
  exact d.told_finish

end TileMachine
