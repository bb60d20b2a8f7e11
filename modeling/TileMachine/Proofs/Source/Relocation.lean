import TileMachine.Proofs.Outcome
import TileMachine.Source.Assembly

/-! Tokens that are moved, to other lines or within their lines. What they are read as does
not depend on where they stand: statements and complaints are moved along, and nothing else
about them changes. -/
namespace TileMachine

/-- Where lines and spans are moved to. A span over two others is moved as those are. -/
structure Relocation where
  line : Nat → Nat
  span : Span → Span
  cover : ∀ a b, span (a.cover b) = (span a).cover (span b)

namespace Relocation

def down (count : Nat) : Relocation where
  line := (· + count)
  span := id
  cover _ _ := rfl

def right (bytes : Nat) : Relocation where
  line := id
  span s := ⟨s.start + bytes, s.stop + bytes⟩
  cover a b := by
    unfold Span.cover
    rw [Nat.add_min_add_right, Nat.add_max_add_right]

end Relocation

section
variable (r : Relocation)

def Token.relocate (t : Token) : Token :=
  { t with line := r.line t.line, span := r.span t.span }

def ParseError.relocate (e : ParseError) : ParseError :=
  { e with line := r.line e.line, span := e.span.map r.span }

def Argument.relocate : Argument → Argument
  | .label name span => .label name (r.span span)
  | argument => argument

def Statement.relocate : Statement → Statement
  | .declare name token => .declare name (token.relocate r)
  | .operation opcode argument line => .operation opcode (argument.relocate r) (r.line line)

end

namespace Statement

variable (r : Relocation)

theorem noMore_relocate (tokens : List Token) :
    noMore (tokens.map (Token.relocate r)) = (noMore tokens).mapError (ParseError.relocate r) := by
  cases tokens <;> rfl

theorem readAddress_relocate (t : Token) :
    readAddress (t.relocate r) = (readAddress t).mapError (ParseError.relocate r) := by
  unfold readAddress Token.relocate
  dsimp only
  split
  next => rfl
  next =>
    split
    next => split <;> rfl
    next => rfl

theorem bracketed_relocate (tokens : List Token) :
    bracketed (tokens.map (Token.relocate r)) = (bracketed tokens).map (Token.relocate r) := by
  induction tokens with
  | nil => rfl
  | cons t ts ih =>
    rw [List.map_cons, bracketed, bracketed, ih]
    change (if t.kind = .rightBracket then _ else _) = _
    split <;> rfl

theorem malformedIndirect_relocate (first : Token) (rest : List Token) :
    malformedIndirect (first.relocate r) (rest.map (Token.relocate r)) =
      (malformedIndirect first rest).relocate r := by
  have hcovered := bracketed_relocate r (first :: rest)
  have hlast (covered : List Token) :
      (covered.map (Token.relocate r)).getLast?.getD (first.relocate r) =
        (covered.getLast?.getD first).relocate r := by
    rw [List.getLast?_map, Option.getD_map]
  unfold malformedIndirect ParseError.relocate
  dsimp only
  rw [← List.map_cons, hcovered, hlast, List.map_map, Option.map_some, r.cover]
  rfl

theorem readTile_relocate (opcode : Opcode) (first : Token) (rest : List Token) :
    readTile opcode (first.relocate r) (rest.map (Token.relocate r)) =
      Argument.relocate r <$> (readTile opcode first rest).mapError (ParseError.relocate r) := by
  have hmalformed :
      Except.error (malformedIndirect (first.relocate r) (rest.map (Token.relocate r))) =
        Argument.relocate r <$>
          (Except.error (malformedIndirect first rest)).mapError (ParseError.relocate r) :=
    congrArg Except.error (malformedIndirect_relocate r first rest)
  have hkind' : (first.relocate r).kind = first.kind := rfl
  cases hkind : first.kind with
  | integer =>
    simp only [readTile, hkind', hkind, mapError_bind, readAddress_relocate, noMore_relocate,
      map_bind]
    rfl
  | leftBracket =>
    match rest with
    | [] | [_] =>
      simp only [readTile, hkind', hkind]
      exact hmalformed
    | inner :: close :: more =>
      have hinner : (inner.relocate r).kind = inner.kind := rfl
      have hclose : (close.relocate r).kind = close.kind := rfl
      simp only [readTile, hkind', hkind, List.map_cons, hinner, hclose]
      split
      next =>
        simp only [mapError_bind, readAddress_relocate, noMore_relocate, map_bind]
        rfl
      next => exact hmalformed
  | rightBracket =>
    simp only [readTile, hkind', hkind]
    exact hmalformed
  | _ =>
    simp only [readTile, hkind', hkind]
    rfl

theorem readLabel_relocate (opcode : Opcode) (first : Token) (rest : List Token) :
    readLabel opcode (first.relocate r) (rest.map (Token.relocate r)) =
      Argument.relocate r <$> (readLabel opcode first rest).mapError (ParseError.relocate r) := by
  have hkind' : (first.relocate r).kind = first.kind := rfl
  cases hkind : first.kind with
  | word | integer =>
    simp only [readLabel, hkind', hkind, mapError_bind, noMore_relocate, map_bind]
    rfl
  | _ =>
    simp only [readLabel, hkind', hkind]
    rfl

theorem readArgument_relocate (opcode : Opcode) (mnemonic : Token) (args : List Token) :
    readArgument opcode (mnemonic.relocate r) (args.map (Token.relocate r)) =
      Argument.relocate r <$>
        (readArgument opcode mnemonic args).mapError (ParseError.relocate r) := by
  cases hkind : opcode.operandKind with
  | nothing =>
    simp only [readArgument, hkind, mapError_bind, noMore_relocate, map_bind]
    rfl
  | tile =>
    cases args with
    | nil =>
      simp only [readArgument, hkind, List.map_nil]
      rfl
    | cons first rest =>
      simp only [readArgument, hkind, List.map_cons]
      exact readTile_relocate r opcode first rest
  | label =>
    cases args with
    | nil =>
      simp only [readArgument, hkind, List.map_nil]
      rfl
    | cons first rest =>
      simp only [readArgument, hkind, List.map_cons]
      exact readLabel_relocate r opcode first rest

theorem readDeclaration_relocate (first : Token) (args : List Token) :
    readDeclaration (first.relocate r) (args.map (Token.relocate r)) =
      Statement.relocate r <$> (readDeclaration first args).mapError (ParseError.relocate r) := by
  have hname : (first.relocate r).labelName? = first.labelName? := rfl
  unfold readDeclaration
  rw [hname]
  dsimp only
  split
  next =>
    simp only [mapError_bind, noMore_relocate, map_bind]
    rfl
  next => rfl

theorem readOperation_relocate (first : Token) (args : List Token) :
    readOperation (first.relocate r) (args.map (Token.relocate r)) =
      Statement.relocate r <$> (readOperation first args).mapError (ParseError.relocate r) := by
  have htext : (first.relocate r).text = first.text := rfl
  unfold readOperation
  rw [htext]
  split
  next => rfl
  next opcode _ =>
    simp only [mapError_bind, readArgument_relocate, map_bind, bind_map_left]
    rfl

theorem ofTokens_relocate (tokens : List Token) :
    ofTokens (tokens.map (Token.relocate r)) =
      Option.map (Statement.relocate r) <$> (ofTokens tokens).mapError (ParseError.relocate r) := by
  have hfilter : (tokens.map (Token.relocate r)).filter Token.isSignificant =
      (tokens.filter Token.isSignificant).map (Token.relocate r) := by
    rw [List.filter_map]
    rfl
  unfold ofTokens
  rw [hfilter]
  cases tokens.filter Token.isSignificant with
  | nil => rfl
  | cons first args =>
    have hkind' : (first.relocate r).kind = first.kind := rfl
    cases hkind : first.kind with
    | labelDef =>
      simp only [List.map_cons, hkind', hkind, mapError_map, readDeclaration_relocate,
        Functor.map_map]
      rfl
    | word =>
      simp only [List.map_cons, hkind', hkind, mapError_map, readOperation_relocate,
        Functor.map_map]
      rfl
    | _ =>
      simp only [List.map_cons, hkind', hkind]
      rfl

end Statement

namespace Draft

def mapOperations (f : Operation → Operation) (d : Draft) : Draft :=
  { d with operations := d.operations.map f }

theorem addLine_relocate (r : Relocation) {f : Operation → Operation} {tokens : List Token}
    (hf : ∀ opcode argument line,
      Statement.ofTokens tokens = .ok (some (.operation opcode argument line)) →
        f ⟨opcode, argument, line⟩ = ⟨opcode, argument.relocate r, r.line line⟩) (d : Draft) :
    (d.mapOperations f).addLine (tokens.map (Token.relocate r)) =
      mapOperations f <$> (d.addLine tokens).mapError (ParseError.relocate r) := by
  unfold addLine
  rw [Statement.ofTokens_relocate]
  cases hsaid : Statement.ofTokens tokens with
  | error e => rfl
  | ok said =>
    rcases said with _ | ⟨name, token⟩ | ⟨opcode, argument, line⟩
    · rfl
    · change (d.mapOperations f).add (.declare name (token.relocate r)) =
        mapOperations f <$> (d.add (.declare name token)).mapError (ParseError.relocate r)
      dsimp only [add, mapOperations]
      by_cases hname : name ∈ d.labels
      · rw [if_pos hname, if_pos hname]
        rfl
      · rw [if_neg hname, if_neg hname, Array.size_map]
        rfl
    · have hpush : (d.operations.push ⟨opcode, argument, line⟩).map f =
          (d.operations.map f).push ⟨opcode, argument.relocate r, r.line line⟩ := by
        rw [Array.map_push, hf opcode argument line hsaid]
      exact congrArg (fun operations => Except.ok (Draft.mk operations d.labels)) hpush.symm

theorem mapError_finish {ε : Type} {f : Operation → Operation} {g g' : ParseError → ε}
    (hline : ∀ op, (f op).line = op.line)
    (hresolve : ∀ labels op,
      ((f op).resolve labels).mapError g' = (op.resolve labels).mapError g)
    (d : Draft) : (d.mapOperations f).finish.mapError g' = d.finish.mapError g := by
  have hlines : (d.operations.map f).map Operation.line = d.operations.map Operation.line := by
    rw [Array.map_map]
    exact congrArg (d.operations.map ·) (funext hline)
  have hresolved : ((d.operations.map f).mapM (Operation.resolve d.labels)).mapError g' =
      (d.operations.mapM (Operation.resolve d.labels)).mapError g := by
    simp only [Array.mapM_eq_mapM_toList, Array.toList_map, mapError_map, mapError_mapM,
      List.mapM_map, Function.comp_apply, hresolve]
  unfold finish mapOperations
  rw [hlines, mapError_bind, mapError_bind, ← hresolved]
  rfl

end Draft
end TileMachine
