import TileMachine.Proofs.Maps
import TileMachine.Proofs.Source.Drafting

/-! Which texts are accepted: those whose lines all say something, declare no name
twice and jump to declared names only. The program of an accepted text is the one
that its lines describe. -/
namespace TileMachine
open Grammar

section Pairs
variable {α β : Type} {R : α → β → Prop}

theorem exists_forall₂ {as : List α} (h : ∀ a ∈ as, ∃ b, R a b) : ∃ bs, List.Forall₂ R as bs := by
  induction as with
  | nil => exact ⟨[], .nil⟩
  | cons a as ih =>
    obtain ⟨b, hb⟩ := h a List.mem_cons_self
    obtain ⟨bs, hbs⟩ := ih fun x hx => h x (List.mem_cons_of_mem a hx)
    exact ⟨b :: bs, .cons hb hbs⟩

end Pairs

namespace Grammar

variable {ls : List (List Char)} {said : List (Option Phrase)}

def declared? : Option Phrase → Option String
  | some (.declaration name) => some name
  | _ => none

theorem declared?_eq_some {phrase : Option Phrase} {name : String} :
    declared? phrase = some name ↔ phrase = some (.declaration name) := by
  rcases phrase with _ | other | opcode
  · simp [declared?]
  · simp [declared?]
  · simp [declared?]

theorem map_fst_declarations (index : Nat) (said : List (Option Phrase)) :
    (declarations index said).map Prod.fst = said.filterMap declared? := by
  induction said generalizing index with
  | nil => rfl
  | cons phrase said ih =>
    rcases phrase with _ | name | opcode
    · rw [declarations, ih, List.filterMap_cons_none rfl]
    · rw [declarations, List.map_cons, ih]
      rfl
    · rw [declarations, ih, List.filterMap_cons_none rfl]

theorem mem_declarations_iff {name : String} :
    name ∈ (declarations 0 said).map Prod.fst ↔ some (.declaration name) ∈ said := by
  rw [map_fst_declarations, List.mem_filterMap]
  simp only [declared?_eq_some, exists_eq_right]

theorem nodup_declarations_iff : ((declarations 0 said).map Prod.fst).Nodup ↔
    ∀ (m n : Nat) (name : String), said[m]? = some (some (.declaration name)) →
      said[n]? = some (some (.declaration name)) → m = n := by
  rw [map_fst_declarations, List.Nodup, List.pairwise_filterMap, List.pairwise_iff_getElem]
  simp only [declared?_eq_some]
  constructor
  · intro h m n name hm hn
    obtain ⟨hm, hmname⟩ := List.getElem?_eq_some_iff.1 hm
    obtain ⟨hn, hnname⟩ := List.getElem?_eq_some_iff.1 hn
    rcases Nat.lt_trichotomy m n with hlt | heq | hlt
    · exact absurd rfl (h m n hm hn hlt name hmname name hnname)
    · exact heq
    · exact absurd rfl (h n m hn hm hlt name hnname name hmname)
  · rintro h m n hm hn hlt name hmname _ hnname rfl
    have heq := h m n name (List.getElem?_eq_some_iff.2 ⟨hm, hmname⟩)
      (List.getElem?_eq_some_iff.2 ⟨hn, hnname⟩)
    omega

theorem mem_operations_iff {line : Nat} {opcode : Opcode} {argument : Argument} :
    (∃ number, ⟨number, opcode, argument⟩ ∈ operations line said) ↔
      some (.operation opcode argument) ∈ said := by
  induction said generalizing line with
  | nil => simp [operations]
  | cons phrase said ih =>
    rcases phrase with _ | name | other
    · simp [operations, ih]
    · simp [operations, ih]
    · simp [operations, exists_or, ih]

theorem exists_labels (honce : ((declarations 0 said).map Prod.fst).Nodup) :
    ∃ labels : Labels, ∀ name index,
      labels[name]? = some index ↔ (name, index) ∈ declarations 0 said :=
  ⟨.ofList (declarations 0 said), fun _ _ => getElem?_ofList_iff honce⟩

theorem exists_describes_iff : (∃ p, Describes said p) ↔
    ((declarations 0 said).map Prod.fst).Nodup ∧
      ∀ opcode name, some (.operation opcode (.label name)) ∈ said →
        some (.declaration name) ∈ said := by
  constructor
  · rintro ⟨p, hp⟩
    refine ⟨hp.once, fun opcode name hjump => ?_⟩
    obtain ⟨line, hline⟩ := mem_operations_iff.2 hjump
    obtain ⟨i, -, hresolves⟩ := exists_mem_of_mem_left hp.instructions hline
    cases hresolves with
    | @label _ _ _ target htarget =>
      have hmem := (hp.labels name target).1 htarget
      exact mem_declarations_iff.1 (List.mem_map_of_mem hmem)
  · rintro ⟨honce, hknown⟩
    obtain ⟨labels, hlabels⟩ := exists_labels honce
    have hresolves : ∀ op ∈ operations 1 said, ∃ i, Resolves labels op i := by
      rintro ⟨line, opcode, _ | address | name⟩ hop
      · exact ⟨_, .nothing⟩
      · exact ⟨_, .tile⟩
      · have hdeclared := hknown opcode name (mem_operations_iff.1 ⟨line, hop⟩)
        obtain ⟨⟨_, target⟩, hmem, rfl⟩ := List.mem_map.1 (mem_declarations_iff.2 hdeclared)
        exact ⟨_, .label ((hlabels _ target).2 hmem)⟩
    obtain ⟨is, his⟩ := exists_forall₂ hresolves
    exact ⟨⟨is.toArray, labels, ((operations 1 said).map Operation.line).toArray⟩,
      honce, hlabels, his, rfl⟩

theorem Tells.eq {n : Nat} {a b : Option Phrase} (hn : n < ls.length) (ha : Tells ls n a)
    (hb : Tells ls n b) : a = b := by
  have hline : ls[n]? = some ls[n] := List.getElem?_eq_getElem hn
  -- The grammar is a relation; that it is a function is seen on the tokens.
  classical
  have hspeaks {phrase : Option Phrase} (h : Tells ls n phrase) :=
    (@Lexer.speaks_lexLine ls n 0 (decide (Inside ls n)) ls[n] phrase hline decide_eq_true_iff).2 h
  exact (hspeaks ha).eq (hspeaks hb)

theorem SaysAt.lt {n : Nat} {phrase : Option Phrase} (h : SaysAt ls n phrase) : n < ls.length := by
  obtain ⟨line, hline, -⟩ := h
  exact (List.getElem?_eq_some_iff.1 hline).1

theorem Reads.getElem?_iff (h : Reads ls said) {n : Nat} {phrase : Phrase} :
    said[n]? = some (some phrase) ↔ SaysAt ls n (some phrase) := by
  constructor
  · intro hn
    rcases h.2 n _ hn with htold | ⟨-, hnone⟩
    · exact htold
    · contradiction
  · intro htold
    have hn : n < said.length := h.1 ▸ htold.lt
    have htells := h.2 n _ (List.getElem?_eq_getElem hn)
    rw [List.getElem?_eq_getElem hn, htells.eq htold.lt (.inl htold)]

theorem Reads.mem_iff (h : Reads ls said) {phrase : Phrase} :
    some phrase ∈ said ↔ ∃ n, SaysAt ls n (some phrase) := by
  rw [List.mem_iff_getElem?]
  simp only [h.getElem?_iff]

theorem exists_reads
    (h : ∀ n line, ls[n]? = some line → ¬Skipped ls n → ∃ phrase, Says line phrase) :
    ∃ said, Reads ls said := by
  have htells : ∀ n ∈ List.range ls.length, ∃ phrase, Tells ls n phrase := by
    intro n hn
    have hline := List.getElem?_eq_getElem (List.mem_range.1 hn)
    by_cases hskipped : Skipped ls n
    · exact ⟨none, .inr ⟨hskipped, rfl⟩⟩
    · obtain ⟨phrase, hphrase⟩ := h n _ hline hskipped
      exact ⟨phrase, .inl ⟨_, hline, hskipped, hphrase⟩⟩
  obtain ⟨said, hsaid⟩ := exists_forall₂ htells
  obtain ⟨hlength, hget⟩ := List.forall₂_iff_get.1 hsaid
  rw [List.length_range] at hlength
  refine ⟨said, hlength.symm, fun n phrase hn => ?_⟩
  obtain ⟨hlt, rfl⟩ := List.getElem?_eq_some_iff.1 hn
  simpa using hget n (by rw [List.length_range]; omega) hlt

theorem accepts_iff : Accepts ls ↔ ∃ said, Reads ls said ∧ ∃ p, Describes said p := by
  constructor
  · intro h
    obtain ⟨said, hsaid⟩ := exists_reads h.phrases
    refine ⟨said, hsaid, exists_describes_iff.2 ⟨nodup_declarations_iff.2 ?_, ?_⟩⟩
    · simp only [hsaid.getElem?_iff]
      exact h.once
    · simp only [hsaid.mem_iff]
      rintro opcode name ⟨n, hn⟩
      exact h.known n opcode name hn
  · rintro ⟨said, hsaid, hp⟩
    obtain ⟨honce, hknown⟩ := exists_describes_iff.1 hp
    simp only [nodup_declarations_iff, hsaid.getElem?_iff] at honce
    simp only [hsaid.mem_iff] at hknown
    refine ⟨fun n line hline hskipped => ?_, honce, fun n opcode name h => hknown opcode name ⟨n, h⟩⟩
    have hn : n < said.length := hsaid.1 ▸ (List.getElem?_eq_some_iff.1 hline).1
    have htells := hsaid.2 n _ (List.getElem?_eq_getElem hn)
    rw [tells_iff hline] at htells
    exact ⟨_, (htells.resolve_left fun h => hskipped h.1).2⟩

end Grammar

namespace Program

/-- A text is read exactly if the grammar accepts it, and as the program that its
lines describe. -/
theorem parse_iff_grammar (source : String) :
    ((∃ p, Program.parse source = .ok p) ↔ Accepts (Text.lines source.toList)) ∧
      ∀ p, Program.parse source = .ok p ↔
        ∃ said, Reads (Text.lines source.toList) said ∧ Describes said p := by
  refine ⟨?_, fun p => parse_eq_ok_iff⟩
  rw [accepts_iff]
  simp only [parse_eq_ok_iff]
  constructor
  · rintro ⟨p, said, hreads, hp⟩
    exact ⟨said, hreads, p, hp⟩
  · rintro ⟨said, hreads, p, hp⟩
    exact ⟨p, said, hreads, hp⟩

end Program
end TileMachine
