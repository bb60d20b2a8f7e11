import TileMachine.Proofs.Program.Validity
import TileMachine.Proofs.Source.Acceptance

/-! Programs whose listing can be read back. Every program that comes from a text
is one of them. -/
namespace TileMachine
open Grammar Text

/-- No problem is found in the program, its addresses can be written, each label
name is one word without a double hyphen, and no jump names a label that ends in a
colon. -/
structure Program.Printable (p : Program) : Prop where
  valid : p.errors = []
  addresses : ∀ i ∈ p.instructions, ∀ n,
    i.operand = .tile (.direct n) ∨ i.operand = .tile (.indirect n) → n ≤ maxAddress
  names : ∀ name ∈ p.labels, IsWord name.toList ∧ ¬['-', '-'] <:+: name.toList
  jumps : ∀ i ∈ p.instructions, ∀ name target,
    i.operand = .label name target → name.toList.getLast? ≠ some ':'

namespace Program

theorem Printable.congr {p q : Program} (hinstructions : q.instructions = p.instructions)
    (hlabels : q.labels = p.labels) (h : p.Printable) : q.Printable := by
  obtain ⟨instructions, labels, lines⟩ := p
  obtain ⟨_, _, others⟩ := q
  subst hinstructions hlabels
  exact ⟨h.valid, h.addresses, h.names, h.jumps⟩

end Program

namespace Grammar

variable {ls : List (List Char)} {said : List (Option Phrase)} {p : Program}

theorem IsCode.no_hyphens {line code : List Char} (h : IsCode line code) :
    ¬['-', '-'] <:+: code := by
  rintro ⟨front, back, hcode⟩
  obtain ⟨comment, hline, -⟩ := h.cut
  refine h.first front.length ?_ ⟨back ++ comment, ?_⟩
  · simp only [← hcode, List.length_append, List.length_cons]
    omega
  · simp [hline, ← hcode]

theorem Says.declared_name {line : List Char} {name : String}
    (h : Says line (some (.declaration name))) :
    IsWord name.toList ∧ ¬['-', '-'] <:+: name.toList := by
  obtain ⟨code, hcode, hmeans⟩ := h
  generalize hphrase : some (Phrase.declaration name) = phrase at hmeans
  cases hmeans with
  | empty => contradiction
  | @declaration word _ htrim hword =>
    cases hphrase
    rw [String.toList_ofList]
    refine ⟨hword, fun hhyphens => hcode.no_hyphens ?_⟩
    have hinner : word <:+: (trim code).dropLast := htrim ▸ isInfix_trim _
    have houter : (trim code).dropLast <:+: trim code := (List.dropLast_prefix _).isInfix
    exact hhyphens.trans (hinner.trans (houter.trans (isInfix_trim code)))
  | operation => cases hphrase

theorem Splits.getLast?_ne_colon {code w : List Char} {ws : List (List Char)}
    (h : Splits (trim code) ws) (hcolon : (trim code).getLast? ≠ some ':')
    (hw : ws.getLast? = some w) : w.getLast? ≠ some ':' := by
  intro hlast
  obtain ⟨front, back, hcode, hback⟩ := h.getLast? hw
  cases hend : back.getLast? with
  | none =>
    rw [List.getLast?_eq_none_iff] at hend
    rw [hcode, hend, List.append_nil, List.getLast?_append, hlast] at hcolon
    exact hcolon rfl
  | some c =>
    have hc : (trim code).getLast? = some c := by rw [hcode, List.getLast?_append, hend]; rfl
    have hblank := hback c (List.mem_of_getLast? hend)
    rw [getLast?_trim_not_blank hc] at hblank
    contradiction

theorem Numeral.le {w : List Char} {n : Nat} (h : Numeral w n) : n ≤ maxAddress := by
  cases h with
  | plain _ _ hn => exact hn
  | minusZero => exact Nat.zero_le _

theorem declarations_le {index : Nat} {name : String} {target : Nat}
    (h : (name, target) ∈ declarations index said) :
    target ≤ index + (operations 1 said).length := by
  induction said generalizing index with
  | nil => contradiction
  | cons phrase said ih =>
    rcases phrase with _ | other | opcode
    · rw [declarations] at h
      simpa only [operations, length_operations 2] using ih h
    · rw [declarations, List.mem_cons, Prod.mk.injEq] at h
      rcases h with ⟨-, rfl⟩ | h
      · omega
      · simpa only [operations, length_operations 2] using ih h
    · rw [declarations] at h
      have hle := ih h
      simp only [operations, List.length_cons, length_operations 2]
      omega

theorem Describes.length (h : Describes said p) : p.length = (operations 1 said).length := by
  rw [h.instructions.length_eq, Array.length_toList]
  rfl

structure Spoken (labels : Labels) (i : Instruction) : Prop where
  wellFormed : i.WellFormed
  addresses : ∀ n, i.operand = .tile (.direct n) ∨ i.operand = .tile (.indirect n) → n ≤ maxAddress
  targets : ∀ name target, i.operand = .label name target → labels[name]? = some target
  names : ∀ name target, i.operand = .label name target → name.toList.getLast? ≠ some ':'

theorem Resolves.spoken {line : List Char} {op : Operation} {i : Instruction} {labels : Labels}
    (h : Resolves labels op i) (htold : Says line (some (.operation op.opcode op.argument))) :
    Spoken labels i := by
  obtain ⟨code, -, hmeans⟩ := htold
  generalize hphrase : some (Phrase.operation op.opcode op.argument) = phrase at hmeans
  cases hmeans with
  | empty => contradiction
  | declaration => cases hphrase
  | @operation mnemonic args opcode argument hcolon hsplits _ htakes =>
    cases hphrase
    generalize hkind : op.opcode.operandKind = kind at htakes
    cases h with
    | nothing =>
      cases htakes
      exact ⟨hkind.symm, by simp, by simp, by simp⟩
    | tile =>
      cases htakes with
      | direct hn => exact ⟨hkind.symm, by simpa using hn.le, by simp, by simp⟩
      | indirect hn => exact ⟨hkind.symm, by simpa using hn.le, by simp, by simp⟩
    | label htarget =>
      cases htakes with
      | @label w _ _ =>
        have hw : w.getLast? ≠ some ':' := hsplits.getLast?_ne_colon hcolon rfl
        exact ⟨hkind.symm, by simp, by simpa using htarget, by simpa using hw⟩

theorem Describes.spoken (h : Describes said p) (hreads : Reads ls said) {i : Instruction}
    (hi : i ∈ p.instructions) : Spoken p.labels i := by
  obtain ⟨⟨number, opcode, argument⟩, hop, hresolves⟩ :=
    exists_mem_of_mem_left h.instructions.flip (Array.mem_toList_iff.2 hi)
  obtain ⟨n, line, -, -, htold⟩ := hreads.mem_iff.1 (mem_operations_iff.1 ⟨number, hop⟩)
  exact hresolves.spoken htold

end Grammar

theorem Program.printable_of_parse {source : String} {p : Program}
    (h : Program.parse source = .ok p) : p.Printable := by
  obtain ⟨said, hreads, hp⟩ := parse_eq_ok_iff.1 h
  have hspoken : ∀ i ∈ p.instructions, Spoken p.labels i := fun i hi => hp.spoken hreads hi
  refine ⟨errors_eq_nil_iff.2 ⟨fun name target hlabel => ?_, fun i hi => ?_⟩,
    fun i hi => (hspoken i hi).addresses, fun name hname => ?_, fun i hi => (hspoken i hi).names⟩
  · have hle := declarations_le ((hp.labels name target).1 hlabel)
    rw [hp.length]
    omega
  · exact ⟨(hspoken i hi).wellFormed, (hspoken i hi).targets⟩
  · rw [Std.ExtTreeMap.mem_iff_isSome_getElem?, Option.isSome_iff_exists] at hname
    obtain ⟨target, htarget⟩ := hname
    have hmem := mem_declarations_iff.1 (List.mem_map_of_mem ((hp.labels name target).1 htarget))
    obtain ⟨n, line, -, -, htold⟩ := hreads.mem_iff.1 hmem
    exact htold.declared_name

end TileMachine
