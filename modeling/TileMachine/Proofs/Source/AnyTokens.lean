import TileMachine.Proofs.Program.Validity
import TileMachine.Proofs.Source.Acceptance

/-! Programs from any list of tokens, also from those that no text gives: lines out of
order, declarations without a colon, integers with a plus sign. Whatever is accepted passes
all checks, since each operand is read by the kind that its operation takes and each jump
is looked up among the labels. -/
namespace TileMachine
open Grammar (maxAddress)

namespace Statement

variable {opcode : Opcode} {first mnemonic : Token} {rest args : List Token} {a : Argument}

theorem readAddress_le {t : Token} {n : Nat} (h : readAddress t = .ok n) : n ≤ maxAddress := by
  unfold readAddress at h
  cases hinteger : Decimal.integer? t.text.toList with
  | none =>
    rw [hinteger] at h
    contradiction
  | some k =>
    rw [hinteger] at h
    dsimp only at h
    by_cases hrange : Decimal.InRange k
    · rw [if_pos hrange] at h
      by_cases hsign : 0 ≤ k
      · rw [if_pos hsign] at h
        cases h
        unfold Decimal.InRange at hrange
        unfold maxAddress
        omega
      · rw [if_neg hsign] at h
        contradiction
    · rw [if_neg hrange] at h
      contradiction

inductive Argues : OperandKind → List Token → Argument → Prop where
  | nothing : Argues .nothing [] .nothing
  | direct {t : Token} {n : Nat} : t.kind = .integer → readAddress t = .ok n →
      Argues .tile [t] (.tile (.direct n))
  | indirect {opening t closing : Token} {n : Nat} : opening.kind = .leftBracket →
      t.kind = .integer → closing.kind = .rightBracket → readAddress t = .ok n →
      Argues .tile [opening, t, closing] (.tile (.indirect n))
  | label {t : Token} : t.kind = .word ∨ t.kind = .integer →
      Argues .label [t] (.label t.text t.span)

theorem argues_of_readTile (h : readTile opcode first rest = .ok a) :
    Argues .tile (first :: rest) a := by
  unfold readTile at h
  split at h
  next hkind =>
    have ⟨n, hn, hend⟩ := bind_eq_ok.1 h
    have ⟨hrest, ha⟩ := noMore_bind_eq_ok.1 hend
    rw [hrest, ← ha]
    exact .direct hkind hn
  next inner closing more hkind =>
    split at h
    next hinside =>
      have ⟨n, hn, hend⟩ := bind_eq_ok.1 h
      have ⟨hmore, ha⟩ := noMore_bind_eq_ok.1 hend
      rw [hmore, ← ha]
      exact .indirect hkind hinside.1 hinside.2 hn
    next => contradiction
  all_goals contradiction

theorem argues_of_readLabel (h : readLabel opcode first rest = .ok a) :
    Argues .label (first :: rest) a := by
  have hlabel (hkind : first.kind = .word ∨ first.kind = .integer)
      (h : (do noMore rest; return .label first.text first.span : Except ParseError Argument) =
        .ok a) : Argues .label (first :: rest) a := by
    have ⟨hrest, ha⟩ := noMore_bind_eq_ok.1 h
    rw [hrest, ← ha]
    exact .label hkind
  unfold readLabel at h
  split at h
  next hkind => exact hlabel (.inl hkind) h
  next hkind => exact hlabel (.inr hkind) h
  next => contradiction

theorem argues_of_readArgument (h : readArgument opcode mnemonic args = .ok a) :
    Argues opcode.operandKind args a := by
  unfold readArgument at h
  generalize opcode.operandKind = kind at h ⊢
  split at h
  next =>
    have ⟨hargs, ha⟩ := noMore_bind_eq_ok.1 h
    rw [hargs, ← ha]
    exact .nothing
  next => contradiction
  next => exact argues_of_readTile h
  next => exact argues_of_readLabel h

end Statement

namespace Draft

variable {d d' : Draft}

/-- Each operation was read with an argument of its kind, and no label points beyond the
operations read so far. -/
structure Sound (d : Draft) : Prop where
  operations : ∀ op ∈ d.operations, ∃ args, Statement.Argues op.opcode.operandKind args op.argument
  labels : ∀ (name : String) (index : Nat),
    d.labels[name]? = some index → index ≤ d.operations.size

theorem sound_empty : Sound {} :=
  ⟨by simp, by simp⟩

theorem Sound.declare (h : Sound d) (name : String) :
    Sound { d with labels := d.labels.insert name d.operations.size } := by
  refine ⟨h.operations, ?_⟩
  intro other index hindex
  rw [Std.ExtTreeMap.getElem?_insert] at hindex
  split at hindex
  · cases hindex
    exact Nat.le_refl _
  · exact h.labels other index hindex

theorem Sound.operation (h : Sound d) {opcode : Opcode} {argument : Argument} {line : Nat}
    {args : List Token} (hargues : Statement.Argues opcode.operandKind args argument) :
    Sound { d with operations := d.operations.push ⟨opcode, argument, line⟩ } := by
  constructor
  · intro op hop
    rw [Array.mem_push] at hop
    cases hop with
    | inl hop => exact h.operations op hop
    | inr hop =>
      rw [hop]
      exact ⟨args, hargues⟩
  · intro name index hindex
    have hle := h.labels name index hindex
    rw [Array.size_push]
    omega

theorem Sound.addLine (h : Sound d) {tokens : List Token} (hadd : d.addLine tokens = .ok d') :
    Sound d' := by
  unfold Draft.addLine at hadd
  have ⟨s, hs, hadd⟩ := bind_eq_ok.1 hadd
  cases s with
  | none =>
    cases hadd
    exact h
  | some s =>
    unfold Draft.add at hadd
    cases s with
    | declare name token =>
      dsimp only at hadd
      split at hadd
      next => contradiction
      next =>
        cases hadd
        exact h.declare name
    | operation opcode argument line =>
      have ⟨t, _, _, args, hargument⟩ := Statement.exists_readArgument_of_ofTokens hs
      cases hadd
      exact h.operation (Statement.argues_of_readArgument hargument)

theorem sound_of_ofTokens {tokens : List Token} (h : ofTokens tokens = .ok d) : Sound d :=
  foldlM_keeps (fun _ _ _ _ hd hadd => hd.addLine hadd) sound_empty h

end Draft

structure Instruction.Assembled (labels : Labels) (i : Instruction) : Prop where
  fits : i.WellFormed
  target : ∀ name target, i.operand = .label name target → labels[name]? = some target
  address : ∀ n, i.operand = .tile (.direct n) ∨ i.operand = .tile (.indirect n) → n ≤ maxAddress

theorem Operation.assembled {labels : Labels} {op : Operation} {i : Instruction} {args : List Token}
    (hargues : Statement.Argues op.opcode.operandKind args op.argument)
    (h : op.resolve labels = .ok i) : i.Assembled labels := by
  cases op with
  | mk opcode argument line =>
    dsimp only at hargues
    generalize hkind : opcode.operandKind = kind at hargues
    cases hargues with
    | nothing =>
      cases h
      exact ⟨hkind.symm, by simp, by simp⟩
    | direct _ hn =>
      cases h
      exact ⟨hkind.symm, by simp, by simpa using Statement.readAddress_le hn⟩
    | indirect _ _ _ hn =>
      cases h
      exact ⟨hkind.symm, by simp, by simpa using Statement.readAddress_le hn⟩
    | @label t =>
      unfold Operation.resolve at h
      dsimp only at h
      split at h
      next target htarget =>
        cases h
        exact ⟨hkind.symm, by simpa using htarget, by simp⟩
      next => contradiction

namespace Program

variable {tokens : List Token} {p : Program}

structure Assembled (p : Program) : Prop where
  valid : p.errors = []
  instructions : ∀ i ∈ p.instructions, i.Assembled p.labels
  labels : ∀ (name : String) (index : Nat), p.labels[name]? = some index → index ≤ p.length
  lines : p.lines.size = p.length

theorem assembled_of_finish {d : Draft} (hd : d.Sound) (h : d.finish = .ok p) : p.Assembled := by
  have ⟨hresolved, hlabels, hlines⟩ := Draft.finish_eq_ok.1 h
  have hlength : p.length = d.operations.size := hresolved.length_eq.symm
  have hinstructions : ∀ i ∈ p.instructions, i.Assembled p.labels := by
    intro i hi
    have ⟨op, hop, hresolve⟩ :=
      exists_mem_of_mem_left hresolved.flip (Array.mem_toList_iff.2 hi)
    have ⟨args, hargues⟩ := hd.operations op (Array.mem_toList_iff.1 hop)
    rw [hlabels]
    exact Operation.assembled hargues hresolve
  have htargets : ∀ (name : String) (index : Nat), p.labels[name]? = some index →
      index ≤ p.length := by
    rw [hlabels, hlength]
    exact hd.labels
  refine ⟨errors_eq_nil_iff.2 ⟨htargets, ?_⟩, hinstructions, htargets, ?_⟩
  · intro i hi
    exact ⟨(hinstructions i hi).fits, (hinstructions i hi).target⟩
  · rw [hlines, Array.size_map, hlength]

theorem assembled_of_ofTokens (h : Program.ofTokens tokens = .ok p) : p.Assembled := by
  have ⟨d, hd, hfinish⟩ := bind_eq_ok.1 h
  exact assembled_of_finish (Draft.sound_of_ofTokens hd) hfinish

end Program
end TileMachine
