import TileMachine.Proofs.Source.Blocks

/-! While a text is read, the draft holds the operations and labels of the lines so
far; at the end each jump looks its label up. So a text is read as a program
exactly if its lines describe that program. -/
namespace TileMachine
open Grammar

namespace Grammar

theorem length_operations (line : Nat) (said : List (Option Phrase)) :
    (operations line said).length = (operations 1 said).length := by
  induction said generalizing line with
  | nil => rfl
  | cons phrase said ih =>
    rcases phrase with _ | name | opcode
    · simp only [operations]
      rw [ih, ih 2]
    · simp only [operations]
      rw [ih, ih 2]
    · simp only [operations, List.length_cons]
      rw [ih, ih 2]

theorem operations_append (line : Nat) (front back : List (Option Phrase)) :
    operations line (front ++ back) =
      operations line front ++ operations (line + front.length) back := by
  induction front generalizing line with
  | nil => rfl
  | cons phrase front ih =>
    have hline : line + (front.length + 1) = line + 1 + front.length := by omega
    rcases phrase with _ | name | opcode <;>
      simp only [List.cons_append, operations, ih, List.length_cons, hline]

theorem declarations_append (index : Nat) (front back : List (Option Phrase)) :
    declarations index (front ++ back) =
      declarations index front ++ declarations (index + (operations 1 front).length) back := by
  induction front generalizing index with
  | nil => rfl
  | cons phrase front ih =>
    rcases phrase with _ | name | opcode
    · simp only [List.cons_append, declarations, operations, ih, length_operations 2]
    · simp only [List.cons_append, declarations, operations, ih, length_operations 2]
    · simp only [List.cons_append, declarations, operations, ih, List.length_cons,
        length_operations 2, Nat.add_assoc, Nat.add_comm 1]

theorem mem_labels_iff {labels : Labels} {declared : List (String × Nat)}
    (h : ∀ name index, labels[name]? = some index ↔ (name, index) ∈ declared) {name : String} :
    name ∈ labels ↔ name ∈ declared.map Prod.fst := by
  rw [Std.ExtTreeMap.mem_iff_isSome_getElem?, Option.isSome_iff_exists, List.mem_map]
  constructor
  · rintro ⟨index, hindex⟩
    exact ⟨(name, index), (h name index).1 hindex, rfl⟩
  · rintro ⟨⟨_, index⟩, hmem, rfl⟩
    exact ⟨index, (h _ index).2 hmem⟩

end Grammar

def Operation.spoken (op : Operation) : Grammar.Operation :=
  ⟨op.line, op.opcode, op.argument.spoken⟩

theorem Operation.resolve_eq_ok {labels : Labels} {op : Operation} {i : Instruction} :
    op.resolve labels = .ok i ↔ Resolves labels op.spoken i := by
  obtain ⟨opcode, argument, line⟩ := op
  unfold Operation.resolve Operation.spoken
  cases argument with
  | nothing =>
    constructor
    · rintro ⟨⟩
      exact .nothing
    · rintro ⟨⟩
      rfl
  | tile address =>
    constructor
    · rintro ⟨⟩
      exact .tile
    · rintro ⟨⟩
      rfl
  | label name span =>
    constructor
    · intro h
      dsimp only at h
      split at h
      next target htarget =>
        cases h
        exact .label htarget
      next => contradiction
    · rintro (_ | _ | htarget)
      dsimp only
      rw [htarget]

namespace Statement

/-- What a line with a statement looks like: one declaration and nothing else, or a mnemonic
and an argument that was read from the tokens behind it. -/
theorem ofTokens_eq_some {tokens : List Token} {s : Statement} (h : ofTokens tokens = .ok (some s)) :
    ∃ first args, tokens.filter Token.isSignificant = first :: args ∧
      (first.kind = .labelDef ∧ args = [] ∧ s = .declare (first.labelName?.getD "") first ∨
        first.kind = .word ∧ ∃ opcode argument, Opcode.ofMnemonic? first.text = some opcode ∧
          readArgument opcode first args = .ok argument ∧
          s = .operation opcode argument first.line) := by
  unfold ofTokens at h
  split at h
  next => cases h
  next first args hfirst =>
    refine ⟨first, args, hfirst, ?_⟩
    split at h
    next hkind =>
      obtain ⟨s, hs, hsome⟩ := map_eq_ok.1 h
      unfold readDeclaration at hs
      dsimp only at hs
      split at hs
      next =>
        obtain ⟨hargs, rfl⟩ := noMore_bind_eq_ok.1 hs
        cases hsome
        exact .inl ⟨hkind, hargs, rfl⟩
      next => contradiction
    next hkind =>
      obtain ⟨s, hs, hsome⟩ := map_eq_ok.1 h
      unfold readOperation at hs
      split at hs
      next => contradiction
      next opcode hopcode =>
        obtain ⟨argument, hargument, hpure⟩ := bind_eq_ok.1 hs
        cases hpure
        cases hsome
        exact .inr ⟨hkind, opcode, argument, hopcode, hargument, rfl⟩
    next => contradiction

theorem exists_readArgument_of_ofTokens {tokens : List Token} {opcode : Opcode}
    {argument : Argument} {line : Nat}
    (h : ofTokens tokens = .ok (some (.operation opcode argument line))) :
    ∃ t ∈ tokens, t.line = line ∧ ∃ args, readArgument opcode t args = .ok argument := by
  obtain ⟨first, args, hfirst, ⟨-, -, hdeclare⟩ | ⟨-, _, _, -, hargument, hoperation⟩⟩ :=
    ofTokens_eq_some h
  · cases hdeclare
  · cases hoperation
    have hmem : first ∈ tokens :=
      List.mem_of_mem_filter (hfirst ▸ List.mem_cons_self : first ∈ tokens.filter _)
    exact ⟨first, hmem, rfl, args, hargument⟩

theorem line_of_ofTokens {tokens : List Token} {opcode : Opcode} {argument : Argument} {line : Nat}
    (h : ofTokens tokens = .ok (some (.operation opcode argument line))) :
    ∃ t ∈ tokens, t.line = line := by
  obtain ⟨t, ht, hline, -⟩ := exists_readArgument_of_ofTokens h
  exact ⟨t, ht, hline⟩

end Statement

namespace Draft

structure Records (d : Draft) (said : List (Option Phrase)) : Prop where
  operations : d.operations.toList.map Operation.spoken = Grammar.operations 1 said
  labels : ∀ name index, d.labels[name]? = some index ↔ (name, index) ∈ declarations 0 said
  once : ((declarations 0 said).map Prod.fst).Nodup

theorem records_nil : Records {} [] :=
  ⟨rfl, by simp [declarations], .nil⟩

variable {d d' : Draft} {said : List (Option Phrase)}

theorem Records.size (h : Records d said) :
    d.operations.size = (Grammar.operations 1 said).length := by
  rw [← h.operations, List.length_map, Array.length_toList]

theorem Records.concat_none (h : Records d said) : Records d (said ++ [none]) := by
  refine ⟨?_, ?_, ?_⟩
  · rw [h.operations, operations_append]
    exact (List.append_nil _).symm
  · rw [declarations_append, declarations, declarations, List.append_nil]
    exact h.labels
  · rw [declarations_append, declarations, declarations, List.append_nil]
    exact h.once

theorem Records.mem_labels_iff (h : Records d said) {name : String} :
    name ∈ d.labels ↔ name ∈ (declarations 0 said).map Prod.fst :=
  Grammar.mem_labels_iff h.labels

theorem Records.declare (h : Records d said) {name : String} (hname : name ∉ d.labels) :
    Records { d with labels := d.labels.insert name d.operations.size }
      (said ++ [some (.declaration name)]) := by
  have hdeclarations : declarations 0 (said ++ [some (.declaration name)]) =
      declarations 0 said ++ [(name, d.operations.size)] := by
    rw [declarations_append, declarations, declarations, h.size, Nat.zero_add]
  refine ⟨?_, fun other index => ?_, ?_⟩
  · rw [h.operations, operations_append]
    exact (List.append_nil _).symm
  · rw [hdeclarations, List.mem_append, List.mem_singleton, ← h.labels, Prod.mk.injEq,
      Std.ExtTreeMap.getElem?_insert]
    simp only [Std.LawfulEqOrd.compare_eq_iff_eq]
    by_cases hother : name = other
    · subst hother
      have hnone : d.labels[name]? = none := Std.ExtTreeMap.getElem?_eq_none hname
      simp [hnone, eq_comm]
    · simp [hother, Ne.symm hother]
  · rw [hdeclarations, List.map_append, List.map_singleton, List.nodup_append]
    refine ⟨h.once, List.pairwise_singleton _ _, fun a ha b hb hab => ?_⟩
    rw [List.mem_singleton] at hb
    subst hab hb
    exact hname (h.mem_labels_iff.2 ha)

theorem Records.operation (h : Records d said) {opcode : Opcode} {argument : Argument} :
    Records { d with operations := d.operations.push ⟨opcode, argument, said.length + 1⟩ }
      (said ++ [some (.operation opcode argument.spoken)]) := by
  have hdeclarations : declarations 0 (said ++ [some (.operation opcode argument.spoken)]) =
      declarations 0 said := by
    rw [declarations_append, declarations, declarations, List.append_nil]
  refine ⟨?_, hdeclarations ▸ h.labels, hdeclarations ▸ h.once⟩
  rw [Array.toList_push, List.map_append, h.operations, operations_append, Nat.add_comm 1]
  rfl

theorem Records.addLine (h : Records d said) {tokens : List Token}
    (hline : ∀ t ∈ tokens, t.line = said.length + 1) (hadd : d.addLine tokens = .ok d') :
    ∃ phrase, Statement.Speaks tokens phrase ∧ Records d' (said ++ [phrase]) := by
  unfold Draft.addLine at hadd
  obtain ⟨s, hs, hadd⟩ := bind_eq_ok.1 hadd
  refine ⟨s.map Statement.phrase, ⟨s, hs, rfl⟩, ?_⟩
  cases s with
  | none =>
    cases hadd
    exact h.concat_none
  | some s =>
    unfold Draft.add at hadd
    cases s with
    | declare name token =>
      dsimp only at hadd
      split at hadd
      next => contradiction
      next hname =>
        cases hadd
        exact h.declare hname
    | operation opcode argument line =>
      cases hadd
      obtain ⟨t, ht, rfl⟩ := Statement.line_of_ofTokens hs
      rw [hline t ht]
      exact h.operation

theorem Records.exists_addLine (h : Records d said) {tokens : List Token} {phrase : Option Phrase}
    (hspeaks : Statement.Speaks tokens phrase)
    (honce : ((declarations 0 (said ++ [phrase])).map Prod.fst).Nodup) :
    ∃ d', d.addLine tokens = .ok d' := by
  obtain ⟨s, hs, rfl⟩ := hspeaks
  unfold Draft.addLine
  rw [hs]
  cases s with
  | none => exact ⟨d, rfl⟩
  | some s =>
    cases s with
    | declare name token =>
      have hname : name ∉ d.labels := by
        intro hmem
        rw [h.mem_labels_iff] at hmem
        rw [declarations_append, List.map_append, List.nodup_append] at honce
        exact honce.2.2 name hmem name (List.mem_singleton.2 rfl) rfl
      exact ⟨_, if_neg hname⟩
    | operation opcode argument line => exact ⟨_, rfl⟩

theorem Records.foldlM (h : Records d said) {inBlock : Bool} {ls : List (List Char)}
    (hfold : (Lexer.lineTokens inBlock (said.length + 1) ls).foldlM Draft.addLine d = .ok d') :
    ∃ told, List.Forall₂ Statement.Speaks (Lexer.lineTokens inBlock (said.length + 1) ls) told ∧
      Records d' (said ++ told) := by
  induction ls generalizing inBlock d said with
  | nil =>
    cases hfold
    exact ⟨[], .nil, by rwa [List.append_nil]⟩
  | cons line ls ih =>
    rw [Lexer.lineTokens, List.foldlM_cons] at hfold
    obtain ⟨next, hnext, hfold⟩ := bind_eq_ok.1 hfold
    obtain ⟨phrase, hphrase, hrecords⟩ := h.addLine (fun t => Lexer.line_of_mem_place) hnext
    have hlength : (said ++ [phrase]).length = said.length + 1 := by simp
    rw [← hlength] at hfold
    obtain ⟨told, htold, hlast⟩ := ih hrecords hfold
    rw [hlength] at htold
    rw [List.append_assoc] at hlast
    exact ⟨phrase :: told, .cons hphrase htold, hlast⟩

theorem Records.exists_foldlM (h : Records d said) {inBlock : Bool} {ls : List (List Char)}
    {told : List (Option Phrase)}
    (htold : List.Forall₂ Statement.Speaks (Lexer.lineTokens inBlock (said.length + 1) ls) told)
    (honce : ((declarations 0 (said ++ told)).map Prod.fst).Nodup) :
    ∃ d', (Lexer.lineTokens inBlock (said.length + 1) ls).foldlM Draft.addLine d = .ok d' ∧
      Records d' (said ++ told) := by
  induction ls generalizing inBlock d said told with
  | nil =>
    cases htold
    exact ⟨d, rfl, by rwa [List.append_nil]⟩
  | cons line ls ih =>
    rw [Lexer.lineTokens] at htold ⊢
    cases htold with
    | @cons _ phrase _ told hphrase htold =>
      have happend : said ++ phrase :: told = said ++ [phrase] ++ told := by simp
      rw [happend] at honce ⊢
      have hfirst : ((declarations 0 (said ++ [phrase])).map Prod.fst).Nodup := by
        rw [declarations_append, List.map_append, List.nodup_append] at honce
        exact honce.1
      obtain ⟨next, hnext⟩ := h.exists_addLine hphrase hfirst
      obtain ⟨other, hother, hrecords⟩ := h.addLine (fun t => Lexer.line_of_mem_place) hnext
      have hsame : other = phrase := hother.eq hphrase
      subst hsame
      have hlength : (said ++ [other]).length = said.length + 1 := by simp
      rw [← hlength] at htold
      obtain ⟨d', hfold, hlast⟩ := ih hrecords htold honce
      refine ⟨d', ?_, hlast⟩
      rw [hlength] at hfold
      rw [List.foldlM_cons, hnext]
      exact hfold

theorem finish_eq_ok {p : Program} : d.finish = .ok p ↔
    List.Forall₂ (fun op i => op.resolve d.labels = .ok i) d.operations.toList
        p.instructions.toList ∧
      p.labels = d.labels ∧ p.lines = d.operations.map Operation.line := by
  unfold Draft.finish
  rw [bind_eq_ok]
  simp only [array_mapM_eq_ok, pure_eq_ok]
  constructor
  · rintro ⟨instructions, hinstructions, rfl⟩
    exact ⟨hinstructions, rfl, rfl⟩
  · rintro ⟨hinstructions, hlabels, hlines⟩
    exact ⟨p.instructions, hinstructions, by rw [← hlabels, ← hlines]⟩

theorem Records.finish_iff (h : Records d said) {p : Program} :
    d.finish = .ok p ↔ Describes said p := by
  have hinstructions (labels : Labels) (is : List Instruction) :
      List.Forall₂ (fun op i => Operation.resolve labels op = .ok i) d.operations.toList is ↔
        List.Forall₂ (Resolves labels) (Grammar.operations 1 said) is := by
    rw [← h.operations, List.forall₂_map_left_iff]
    simp only [Operation.resolve_eq_ok]
  have hlines : (d.operations.map Operation.line).toList =
      (Grammar.operations 1 said).map Grammar.Operation.line := by
    rw [← h.operations, List.map_map, Array.toList_map]
    rfl
  rw [finish_eq_ok, hinstructions]
  constructor
  · rintro ⟨hresolved, hlabels, hnumbers⟩
    exact ⟨h.once, by rw [hlabels]; exact h.labels, by rwa [hlabels], by rw [hnumbers, hlines]⟩
  · intro hdescribes
    have hlabels : p.labels = d.labels := by
      ext name index
      rw [hdescribes.labels, h.labels]
    refine ⟨hlabels ▸ hdescribes.instructions, hlabels, ?_⟩
    rw [← Array.toList_inj, hlines, hdescribes.lines]

end Draft

namespace Program

theorem parse_eq_ok_iff {source : String} {p : Program} : Program.parse source = .ok p ↔
    ∃ said, Reads (Text.lines source.toList) said ∧ Describes said p := by
  rw [Program.parse_eq, bind_eq_ok]
  constructor
  · rintro ⟨d, hfold, hfinish⟩
    obtain ⟨said, hsaid, hrecords⟩ := Draft.records_nil.foldlM hfold
    exact ⟨said, Lexer.reads_iff.2 hsaid, hrecords.finish_iff.1 hfinish⟩
  · rintro ⟨said, hreads, hdescribes⟩
    obtain ⟨d, hfold, hrecords⟩ :=
      Draft.records_nil.exists_foldlM (Lexer.reads_iff.1 hreads) hdescribes.once
    exact ⟨d, hfold, hrecords.finish_iff.2 hdescribes⟩

end Program
end TileMachine
