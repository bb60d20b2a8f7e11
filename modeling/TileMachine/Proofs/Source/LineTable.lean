import TileMachine.Proofs.Program.Listing
import TileMachine.Proofs.Source.Acceptance
import TileMachine.Proofs.Source.Lossless

/-! The line table of a program from a text. Its entries ascend, and the line with that
number, read on its own, gives the instruction that the entry belongs to. -/
namespace TileMachine
open Grammar

namespace Grammar

variable {said : List (Option Phrase)}

theorem getElem?_of_mem_operations {first : Nat} {op : Operation} (h : op ∈ operations first said) :
    first ≤ op.line ∧
      said[op.line - first]? = some (some (.operation op.opcode op.argument)) := by
  induction said generalizing first with
  | nil => cases h
  | cons phrase said ih =>
    have hlater (h : op ∈ operations (first + 1) said) : first ≤ op.line ∧
        (phrase :: said)[op.line - first]? = some (some (.operation op.opcode op.argument)) := by
      obtain ⟨hle, hsaid⟩ := ih h
      have hindex : op.line - first = op.line - (first + 1) + 1 := by omega
      rw [hindex, List.getElem?_cons_succ]
      exact ⟨by omega, hsaid⟩
    rcases phrase with _ | name | ⟨opcode, argument⟩
    · exact hlater h
    · exact hlater h
    · rw [operations, List.mem_cons] at h
      rcases h with rfl | h
      · exact ⟨Nat.le_refl first, by simp⟩
      · exact hlater h

theorem pairwise_operations (first : Nat) (said : List (Option Phrase)) :
    ((operations first said).map Operation.line).Pairwise (· < ·) := by
  induction said generalizing first with
  | nil => exact .nil
  | cons phrase said ih =>
    rcases phrase with _ | name | ⟨opcode, argument⟩
    · exact ih (first + 1)
    · exact ih (first + 1)
    · rw [operations, List.map_cons, List.pairwise_cons]
      refine ⟨fun line hline => ?_, ih (first + 1)⟩
      obtain ⟨op, hop, rfl⟩ := List.mem_map.1 hline
      exact (getElem?_of_mem_operations hop).1

theorem Resolves.phrase_eq {labels : Labels} {op : Operation} {i : Instruction}
    (h : Resolves labels op i) : Phrase.operation op.opcode op.argument = i.phrase := by
  cases h <;> rfl

end Grammar

/-! ### A line on its own -/

namespace Lexer

theorem tokenize_line {line : List Char} (hne : line ≠ []) (h : '\n' ∉ line) :
    tokenize (String.ofList line) = place 1 0 (lexLine false line).1 := by
  rw [tokenize, String.toList_ofList, Text.lines_of_no_feed hne h, lexLines_cons, lexLines,
    List.append_nil]

end Lexer

/-- The tokens read as this instruction, but for where it jumps to. -/
def Statement.Gives (tokens : List Token) (i : Instruction) : Prop :=
  ∃ mnemonic args argument, tokens.filter Token.isSignificant = mnemonic :: args ∧
    mnemonic.kind = .word ∧ Opcode.ofMnemonic? mnemonic.text = some i.opcode ∧
    readArgument i.opcode mnemonic args = .ok argument ∧ argument.spoken = i.operand.spoken

namespace Grammar

theorem SaysAt.gives {ls : List (List Char)} {n : Nat} {line : List Char} {i : Instruction}
    (h : SaysAt ls n (some i.phrase)) (hline : ls[n]? = some line) (hfeed : '\n' ∉ line) :
    Statement.Gives (Lexer.tokenize (String.ofList line)) i := by
  obtain ⟨other, hother, hskipped, hsays⟩ := h
  obtain rfl : line = other := Option.some.inj (hline.symm.trans hother)
  have halone : Tells [line] 0 (some i.phrase) := by
    refine (tells_iff rfl).2 (.inr ⟨fun hcomment => hskipped ?_, hsays⟩)
    have hkeyword := ((skipped_iff rfl).1 hcomment).resolve_left not_inside_zero
    exact (skipped_iff hline).2 (.inr hkeyword)
  have hspeaks : Statement.Speaks (Lexer.place 1 0 (Lexer.lexLine false line).1) (some i.phrase) :=
    (Lexer.speaks_lexLine rfl (by simp [not_inside_zero])).2 halone
  obtain ⟨s, hs, hphrase⟩ := hspeaks
  have hne : line ≠ [] := by
    rintro rfl
    cases hs
    cases hphrase
  rw [Lexer.tokenize_line hne hfeed]
  cases s with
  | none => cases hphrase
  | some s =>
    obtain ⟨mnemonic, args, htokens, ⟨-, -, rfl⟩ | ⟨hkind, opcode, argument, hopcode, hargument, rfl⟩⟩ :=
      Statement.ofTokens_eq_some hs
    · cases hphrase
    · obtain ⟨hsame, hspoken⟩ : opcode = i.opcode ∧ argument.spoken = i.operand.spoken := by
        simpa [Statement.phrase, Instruction.phrase] using hphrase
      rw [hsame] at hopcode hargument
      exact ⟨mnemonic, args, argument, htokens, hkind, hopcode, hargument, hspoken⟩

end Grammar

namespace Program

structure LinesFit (source : String) (p : Program) : Prop where
  size : p.lines.size = p.length
  ascending : p.lines.toList.Pairwise (· < ·)
  within : ∀ n ∈ p.lines, 1 ≤ n ∧ n ≤ (Text.lines source.toList).length
  gives : ∀ (index : Nat) (i : Instruction) (n : Nat) (line : List Char),
    p.instructions[index]? = some i → p.lines[index]? = some n →
      (Text.lines source.toList)[n - 1]? = some line →
      Statement.Gives (Lexer.tokenize (String.ofList line)) i

theorem linesFit_of_parse {source : String} {p : Program} (h : Program.parse source = .ok p) :
    LinesFit source p := by
  obtain ⟨said, hreads, hdescribes⟩ := Program.parse_eq_ok_iff.1 h
  have hoperation {op : Grammar.Operation} (hop : op ∈ Grammar.operations 1 said) :
      1 ≤ op.line ∧ SaysAt (Text.lines source.toList) (op.line - 1)
        (some (.operation op.opcode op.argument)) := by
    obtain ⟨hle, hsaid⟩ := getElem?_of_mem_operations hop
    exact ⟨hle, hreads.getElem?_iff.1 hsaid⟩
  refine ⟨?_, ?_, ?_, ?_⟩
  · rw [← Array.length_toList, hdescribes.lines, List.length_map, hdescribes.instructions.length_eq]
    rfl
  · rw [hdescribes.lines]
    exact pairwise_operations 1 said
  · intro n hn
    rw [← Array.mem_toList_iff, hdescribes.lines] at hn
    obtain ⟨op, hop, rfl⟩ := List.mem_map.1 hn
    obtain ⟨hle, hsays⟩ := hoperation hop
    have hlt := hsays.lt
    omega
  · intro index i n line hi hn hline
    have hfeed := Text.feed_not_mem_of_mem_lines (List.mem_of_getElem? hline)
    rw [← Array.getElem?_toList, hdescribes.lines, List.getElem?_map, Option.map_eq_some_iff] at hn
    obtain ⟨op, hop, rfl⟩ := hn
    have hresolves : Resolves p.labels op i := by
      rw [← Array.getElem?_toList] at hi
      obtain ⟨hlt, rfl⟩ := List.getElem?_eq_some_iff.1 hop
      obtain ⟨hlt', rfl⟩ := List.getElem?_eq_some_iff.1 hi
      exact hdescribes.instructions.get hlt hlt'
    have hsays := (hoperation (List.mem_of_getElem? hop)).2
    rw [hresolves.phrase_eq] at hsays
    exact hsays.gives hline hfeed

end Program
end TileMachine
