import Mathlib.Data.List.Nodup
import TileMachine.Proofs.Command.Endings
import TileMachine.Proofs.Machine.Stepping
import TileMachine.Proofs.Program.Listing

/-! Printing and reading again. A program comes back from its listing, with the same
instructions and labels, exactly if it is printable. What is lost is the line table,
which no listing and no run depends on. -/
namespace TileMachine
open Grammar

namespace Grammar

theorem declarations_names (index : Nat) (names : List String) :
    declarations index ((names.map Phrase.declaration).map some) = names.map (·, index) := by
  induction names with
  | nil => rfl
  | cons name names ih => simp only [List.map_cons, declarations, ih]

theorem operations_names (line : Nat) (names : List String) :
    operations line ((names.map Phrase.declaration).map some) = [] := by
  induction names generalizing line with
  | nil => rfl
  | cons name names ih => simp only [List.map_cons, operations, ih]

end Grammar

theorem Instruction.resolves {i : Instruction} {labels : Labels} (line : Nat)
    (h : ∀ name target, i.operand = .label name target → labels[name]? = some target) :
    Resolves labels ⟨line, i.opcode, i.operand.spoken⟩ i := by
  obtain ⟨opcode, operand⟩ := i
  cases operand with
  | nothing => exact .nothing
  | tile address => exact .tile
  | label name target => exact .label (h name target rfl)

namespace Program

variable {p : Program}

theorem chunk_some (p : Program) (i : Instruction) (index : Nat) : (p.chunk (i, index)).map some =
    ((p.labelsAt index).map Phrase.declaration).map some ++
      [some (.operation i.opcode i.operand.spoken)] := by
  rw [chunk, List.map_append]
  rfl

theorem resolves_chunks {labels : Labels} (p : Program) (is : List Instruction) (line index : Nat)
    (h : ∀ i ∈ is, ∀ name target, i.operand = .label name target → labels[name]? = some target) :
    List.Forall₂ (Resolves labels)
      (operations line (((is.zipIdx index).flatMap p.chunk).map some)) is := by
  induction is generalizing line index with
  | nil => exact .nil
  | cons i is ih =>
    rw [List.forall_mem_cons] at h
    rw [List.zipIdx_cons, List.flatMap_cons, List.map_append, operations_append, chunk_some,
      operations_append, operations_names]
    exact .cons (i.resolves _ h.1) (ih _ _ h.2)

theorem declarations_chunks (p : Program) (is : List Instruction) (index : Nat) :
    declarations index (((is.zipIdx index).flatMap p.chunk).map some) =
      (List.range' index is.length).flatMap fun k => (p.labelsAt k).map (·, k) := by
  induction is generalizing index with
  | nil => rfl
  | cons i is ih =>
    rw [List.zipIdx_cons, List.flatMap_cons, List.map_append, declarations_append, chunk_some,
      declarations_append, operations_append, declarations_names, operations_names,
      List.length_cons, List.range'_succ, List.flatMap_cons, ← ih]
    simp [declarations, operations]

theorem declarations_phrases (hvalid : p.errors = []) : declarations 0 (p.phrases.map some) =
    ((List.range p.length).flatMap fun k => (p.labelsAt k).map (·, k)) ++
      (p.labelsWhere (p.length ≤ ·)).map (·, p.length) := by
  have htargets := fun i hi => ((errors_eq_nil_iff.1 hvalid).2 i (Array.mem_toList_iff.1 hi)).2
  have hlength := (resolves_chunks p p.instructions.toList 1 0 htargets).length_eq
  rw [phrases, List.map_append, declarations_append, declarations_chunks, declarations_names,
    hlength, List.range_eq_range', Array.length_toList, Nat.zero_add]
  rfl

theorem mem_declarations_phrases (hvalid : p.errors = []) {name : String} {index : Nat} :
    p.labels[name]? = some index ↔ (name, index) ∈ declarations 0 (p.phrases.map some) := by
  have hle := (errors_eq_nil_iff.1 hvalid).1
  rw [declarations_phrases hvalid]
  simp only [List.mem_append, List.mem_flatMap, List.mem_range, List.mem_map, Prod.mk.injEq,
    labelsAt, mem_labelsWhere, beq_iff_eq, decide_eq_true_eq]
  constructor
  · intro h
    have hindex := hle name index h
    by_cases hend : index = p.length
    · exact .inr ⟨name, ⟨index, h, by omega⟩, rfl, hend.symm⟩
    · exact .inl ⟨index, by omega, name, ⟨index, h, rfl⟩, rfl, rfl⟩
  · rintro (⟨k, -, _, ⟨target, htarget, rfl⟩, rfl, rfl⟩ | ⟨_, ⟨target, htarget, hend⟩, rfl, rfl⟩)
    · exact htarget
    · have hindex := hle _ _ htarget
      have heq : target = p.length := by omega
      exact heq ▸ htarget

theorem nodup_declarations_phrases (hvalid : p.errors = []) :
    ((declarations 0 (p.phrases.map some)).map Prod.fst).Nodup := by
  -- A name is listed under its target only.
  have hdisjoint {k : Nat} {test : Nat → Bool} (hk : test k = false) :
      (p.labelsAt k).Disjoint (p.labelsWhere test) := by
    intro name hname hother
    obtain ⟨a, ha, hat⟩ := mem_labelsWhere.1 hname
    obtain ⟨b, hb, hbt⟩ := mem_labelsWhere.1 hother
    rw [ha, Option.some.injEq] at hb
    rw [beq_iff_eq] at hat
    rw [← hb, hat, hk] at hbt
    contradiction
  rw [declarations_phrases hvalid, List.map_append, List.map_flatMap]
  simp only [List.map_map, Function.comp_def, List.map_id']
  rw [List.nodup_append', List.nodup_flatMap]
  refine ⟨⟨fun k _ => nodup_labelsWhere p _, ?_⟩, nodup_labelsWhere p _, ?_⟩
  · refine List.nodup_range.imp fun {a b} hab => ?_
    exact @hdisjoint a (· == b) (beq_eq_false_iff_ne.2 hab)
  · intro name hname hend
    obtain ⟨k, hk, hname⟩ := List.mem_flatMap.1 hname
    rw [List.mem_range] at hk
    exact hdisjoint (decide_eq_false (by omega)) hname hend

theorem describes_listing (hvalid : p.errors = []) :
    Describes (none :: none :: p.phrases.map some)
      { p with lines := ((operations 3 (p.phrases.map some)).map Grammar.Operation.line).toArray } := by
  refine ⟨nodup_declarations_phrases hvalid, fun name index => mem_declarations_phrases hvalid, ?_, rfl⟩
  have htargets := fun i hi => ((errors_eq_nil_iff.1 hvalid).2 i (Array.mem_toList_iff.1 hi)).2
  change List.Forall₂ (Resolves p.labels) (operations 3 (p.phrases.map some)) p.instructions.toList
  rw [phrases, List.map_append, operations_append, operations_names, List.append_nil]
  exact resolves_chunks p p.instructions.toList 3 0 htargets

theorem Printable.exists_parse_listing (h : p.Printable) : ∃ q, Program.parse p.listing = .ok q ∧
    q.instructions = p.instructions ∧ q.labels = p.labels :=
  ⟨_, parse_eq_ok_iff.2 ⟨_, h.reads_listing, describes_listing h.valid⟩, rfl, rfl⟩

/-- Exactly the printable programs come back from their listing. -/
theorem parse_listing_iff_printable (p : Program) :
    (∃ q, Program.parse p.listing = .ok q ∧ q.instructions = p.instructions ∧ q.labels = p.labels) ↔
      p.Printable := by
  constructor
  · -- What comes back was read from a text, and so is printable.
    rintro ⟨q, hq, hinstructions, hlabels⟩
    exact (printable_of_parse hq).congr hinstructions.symm hlabels.symm
  · exact Printable.exists_parse_listing

theorem listing_congr {p q : Program} (hinstructions : q.instructions = p.instructions)
    (hlabels : q.labels = p.labels) : q.listing = p.listing := by
  obtain ⟨instructions, labels, lines⟩ := p
  obtain ⟨_, _, others⟩ := q
  subst hinstructions hlabels
  rfl

end Program

theorem Machine.ofProgram_of_valid {p : Program} (h : p.errors = []) :
    Machine.ofProgram p = .ok ⟨p, some defaultLimit, h⟩ := by
  unfold Machine.ofProgram
  split
  · rfl
  next hne => rw [h] at hne; contradiction

namespace Command

theorem respond?_format {files : Files} {path text : String} {p : Program} (patience : Nat)
    (hfile : files path = .ok text.toUTF8) (hparse : Program.parse text = .ok p) :
    respond? files patience (.format path) =
      some { ending := .success, output := p.listing } := by
  have hanswer : answerFormat files path = .ok { ending := .success, output := p.listing } := by
    unfold answerFormat
    rw [loadProgram_toUTF8 hfile hparse]
    rfl
  unfold respond?
  dsimp only
  rw [hanswer]
  rfl

end Command

namespace Program

/-- What is printed of a text can be read again: instructions, labels and listing
stay, formatting a second time changes nothing, and all runs end alike. -/
theorem parse_listing_of_parse {source : String} {p : Program}
    (h : Program.parse source = .ok p) : ∃ q, Program.parse p.listing = .ok q ∧
      q.instructions = p.instructions ∧ q.labels = p.labels ∧ q.listing = p.listing ∧
      (∀ (files : Files) (path : String) (patience : Nat),
        files path = .ok source.toUTF8 ∨ files path = .ok p.listing.toUTF8 →
          Command.respond? files patience (.format path) =
            some { ending := .success, output := p.listing }) ∧
      ∃ m m', Machine.ofProgram p = .ok m ∧ Machine.ofProgram q = .ok m' ∧
        ∀ limit patience inbox tiles, (m'.withLimit limit).run? patience inbox tiles =
          (m.withLimit limit).run? patience inbox tiles := by
  have hprintable := printable_of_parse h
  obtain ⟨q, hq, hinstructions, hlabels⟩ := hprintable.exists_parse_listing
  have hlisting := listing_congr hinstructions hlabels
  have hvalid := (hprintable.congr hinstructions hlabels).valid
  refine ⟨q, hq, hinstructions, hlabels, hlisting, fun files path patience hfile => ?_,
    _, _, Machine.ofProgram_of_valid hprintable.valid, Machine.ofProgram_of_valid hvalid,
    fun limit patience inbox tiles => Machine.run?_congr patience inbox tiles rfl hinstructions⟩
  rcases hfile with hfile | hfile
  · exact Command.respond?_format patience hfile h
  · rw [Command.respond?_format patience hfile hq, hlisting]

/-- A label that spells a keyword, one that is a numeral, a pointer without a space
and a comment. -/
theorem parse_listing_countdown :
    let source := "Define:\n  Copyto[3] -- save\n-1:\n jumpN Define\n"
    let p : Program :=
      ⟨#[⟨.copyto, .tile (.indirect 3)⟩, ⟨.jumpn, .label "Define" 0⟩],
        (∅ : Labels) |>.insert "Define" 0 |>.insert "-1" 1, #[2, 4]⟩
    Program.parse source = .ok p ∧ ∃ q, Program.parse p.listing = .ok q ∧
      q.instructions = p.instructions ∧ q.labels = p.labels ∧ q.listing = p.listing := by
  intro source p
  have h : Program.parse source = .ok p := toOption_eq_some.1 (by decide +kernel)
  obtain ⟨q, hq, hinstructions, hlabels, hlisting, -⟩ := parse_listing_of_parse h
  exact ⟨h, q, hq, hinstructions, hlabels, hlisting⟩

end Program
end TileMachine
