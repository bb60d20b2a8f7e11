import TileMachine.Proofs.Source.FirstError
import TileMachine.Proofs.Source.Relocation

/-! Texts that are put together. Two texts with an empty line between them are read as the
program of the first one with that of the second one behind it, where the jumps, labels and
lines of the second are moved on. The only thing that can go wrong is a label that both
declare. -/
namespace TileMachine
open Grammar

/-! ### Linked programs -/

def Operand.shift (count : Nat) : Operand → Operand
  | .label name target => .label name (target + count)
  | operand => operand

def Instruction.shift (count : Nat) (i : Instruction) : Instruction :=
  { i with operand := i.operand.shift count }

/-- One program behind the other. The text of the first one has that many lines. -/
def Program.link (p q : Program) (count : Nat) : Program where
  instructions := p.instructions ++ q.instructions.map (Instruction.shift p.length)
  labels := p.labels ∪ q.labels.map fun _ index => index + p.length
  lines := p.lines ++ q.lines.map (· + count)

namespace Grammar

variable {said told : List (Option Phrase)} {p q : Program}

def Operation.down (count : Nat) (op : Operation) : Operation :=
  { op with line := op.line + count }

theorem operations_add (first count : Nat) (said : List (Option Phrase)) :
    operations (first + count) said = (operations first said).map (Operation.down count) := by
  induction said generalizing first with
  | nil => rfl
  | cons phrase said ih =>
    have hnext : first + count + 1 = first + 1 + count := by omega
    rcases phrase with _ | name | opcode
    · simp only [operations, hnext, ih]
    · simp only [operations, hnext, ih]
    · simp only [operations, hnext, ih]
      rfl

theorem mem_declarations_add {name : String} {index start count : Nat} :
    (name, index) ∈ declarations (start + count) said ↔
      ∃ old, (name, old) ∈ declarations start said ∧ old + count = index := by
  induction said generalizing start with
  | nil => simp [declarations]
  | cons phrase said ih =>
    have hnext : start + count + 1 = start + 1 + count := by omega
    rcases phrase with _ | other | opcode
    · rw [declarations, declarations, ih]
    · simp only [declarations, List.mem_cons, Prod.mk.injEq, ih]
      constructor
      · rintro (⟨rfl, rfl⟩ | ⟨old, hold, rfl⟩)
        · exact ⟨start, .inl ⟨rfl, rfl⟩, rfl⟩
        · exact ⟨old, .inr hold, rfl⟩
      · rintro ⟨old, ⟨rfl, rfl⟩ | hold, rfl⟩
        · exact .inl ⟨rfl, rfl⟩
        · exact .inr ⟨old, hold, rfl⟩
    · rw [declarations, declarations, hnext, ih]

theorem Describes.mem_labels_iff (h : Describes said p) {name : String} :
    name ∈ p.labels ↔ some (.declaration name) ∈ said := by
  rw [← mem_declarations_iff]
  exact Grammar.mem_labels_iff h.labels

theorem nodup_declarations_append (hsaid : ((declarations 0 said).map Prod.fst).Nodup)
    (htold : ((declarations 0 told).map Prod.fst).Nodup)
    (hdisjoint : ∀ name, some (.declaration name) ∈ said → some (.declaration name) ∉ told) :
    ((declarations 0 (said ++ told)).map Prod.fst).Nodup := by
  rw [map_fst_declarations] at hsaid htold ⊢
  rw [List.filterMap_append]
  refine List.Nodup.append hsaid htold fun name hfirst hsecond => ?_
  rw [← map_fst_declarations 0, mem_declarations_iff] at hfirst hsecond
  exact hdisjoint name hfirst hsecond

theorem getElem?_labels_link {p q : Program} (hdisjoint : ∀ name ∈ p.labels, name ∉ q.labels)
    (count : Nat) (name : String) (index : Nat) :
    (p.link q count).labels[name]? = some index ↔ p.labels[name]? = some index ∨
      ∃ old, q.labels[name]? = some old ∧ old + p.length = index := by
  have hlookup : (p.link q count).labels[name]? =
      (q.labels[name]?.map (· + p.length)).or p.labels[name]? := by
    change (p.labels ∪ q.labels.map fun _ index => index + p.length)[name]? = _
    rw [Std.ExtTreeMap.getElem?_union, Std.ExtTreeMap.getElem?_map]
  rw [hlookup]
  cases hsecond : q.labels[name]? with
  | none => simp
  | some old =>
    have hfirst : p.labels[name]? = none := by
      refine Std.ExtTreeMap.getElem?_eq_none fun hmem => hdisjoint name hmem ?_
      rw [Std.ExtTreeMap.mem_iff_isSome_getElem?, hsecond]
      rfl
    simp [hfirst]

theorem Resolves.down {labels labels' : Labels} {op : Operation} {i : Instruction} {count : Nat}
    (hlabels : ∀ (name : String) (target : Nat), labels[name]? = some target →
      labels'[name]? = some (target + count)) (lines : Nat) (h : Resolves labels op i) :
    Resolves labels' (op.down lines) (i.shift count) := by
  cases h with
  | nothing => exact .nothing
  | tile => exact .tile
  | label htarget => exact .label (hlabels _ _ htarget)

theorem Resolves.mono {labels labels' : Labels} {op : Operation} {i : Instruction}
    (hlabels : ∀ (name : String) (target : Nat), labels[name]? = some target →
      labels'[name]? = some target) (h : Resolves labels op i) : Resolves labels' op i := by
  have hzero : i.shift 0 = i := by
    obtain ⟨opcode, operand⟩ := i
    cases operand <;> rfl
  exact hzero ▸ h.down hlabels 0

theorem Describes.link (hp : Describes said p) (hq : Describes told q)
    (hdisjoint : ∀ name ∈ p.labels, name ∉ q.labels) :
    Describes (said ++ told) (p.link q said.length) := by
  have hlabels := getElem?_labels_link hdisjoint said.length
  have hoperations : operations 1 (said ++ told) =
      operations 1 said ++ (operations 1 told).map (Operation.down said.length) := by
    rw [operations_append, operations_add]
  refine ⟨?_, fun name index => ?_, ?_, ?_⟩
  · refine nodup_declarations_append hp.once hq.once fun name hsaid htold => ?_
    exact hdisjoint name (hp.mem_labels_iff.2 hsaid) (hq.mem_labels_iff.2 htold)
  · rw [hlabels, declarations_append, List.mem_append, ← hp.length, mem_declarations_add, hp.labels]
    simp only [hq.labels]
  · have hfirst : List.Forall₂ (Resolves (p.link q said.length).labels) (operations 1 said)
        p.instructions.toList :=
      hp.instructions.imp fun _ _ h =>
        h.mono fun name target htarget => (hlabels name target).2 (.inl htarget)
    have hsecond : List.Forall₂ (Resolves (p.link q said.length).labels)
        ((operations 1 told).map (Operation.down said.length))
        (q.instructions.toList.map (Instruction.shift p.length)) := by
      rw [List.forall₂_map_left_iff, List.forall₂_map_right_iff]
      exact hq.instructions.imp fun _ _ h => h.down (fun name target htarget =>
        (hlabels name (target + p.length)).2 (.inr ⟨target, htarget, rfl⟩)) said.length
    rw [hoperations]
    simpa [Program.link] using List.rel_append hfirst hsecond
  · rw [hoperations]
    simp [Program.link, hp.lines, hq.lines, Operation.down, Function.comp_def]

end Grammar

/-! ### Moved tokens -/

theorem Argument.spoken_relocate (r : Relocation) (argument : Argument) :
    (argument.relocate r).spoken = argument.spoken := by
  cases argument <;> rfl

namespace Statement

theorem phrase_relocate (r : Relocation) (s : Statement) : (s.relocate r).phrase = s.phrase := by
  cases s with
  | declare name token => rfl
  | operation opcode argument line =>
    exact congrArg (Phrase.operation opcode) (argument.spoken_relocate r)

theorem Speaks.relocate {tokens : List Token} {phrase : Option Phrase} (r : Relocation)
    (h : Speaks tokens phrase) : Speaks (tokens.map (Token.relocate r)) phrase := by
  obtain ⟨s, hs, rfl⟩ := h
  refine ⟨s.map (Statement.relocate r), ?_, ?_⟩
  · rw [ofTokens_relocate, hs]
    rfl
  · rw [Option.map_map]
    exact congrArg (s.map ·) (funext (phrase_relocate r))

end Statement

namespace Lexer

theorem place_add (line count start : Nat) (lexemes : List Lexeme) :
    place (line + count) start lexemes =
      (place line start lexemes).map (Token.relocate (.down count)) := by
  induction lexemes generalizing start with
  | nil => rfl
  | cons l ls ih =>
    rw [place, place, List.map_cons, ih]
    rfl

theorem lineTokens_add (inBlock : Bool) (first count : Nat) (ls : List (List Char)) :
    lineTokens inBlock (first + count) ls =
      (lineTokens inBlock first ls).map (List.map (Token.relocate (.down count))) := by
  induction ls generalizing inBlock first with
  | nil => rfl
  | cons line ls ih =>
    have hnext : first + count + 1 = first + 1 + count := by omega
    rw [lineTokens, lineTokens, List.map_cons, place_add, hnext, ih]

theorem lineTokens_append_of_closed {front : List (List Char)} (h : blockAfter false front = false)
    (back : List (List Char)) : lineTokens false 1 (front ++ back) = lineTokens false 1 front ++
      (lineTokens false 1 back).map (List.map (Token.relocate (.down front.length))) := by
  rw [lineTokens_append, h, lineTokens_add]

end Lexer

namespace Grammar

variable {front back : List (List Char)} {said told rest : List (Option Phrase)}

theorem Reads.append (hclosed : Lexer.blockAfter false front = false) (hfront : Reads front said)
    (hback : Reads back told) : Reads (front ++ back) (said ++ told) := by
  rw [Lexer.reads_iff] at hfront hback ⊢
  rw [Lexer.lineTokens_append_of_closed hclosed]
  refine List.rel_append hfront (List.forall₂_map_left_iff.2 ?_)
  exact hback.imp fun _ _ h => h.relocate _

theorem Reads.take (h : Reads front (said ++ rest)) : Reads (front.take said.length) said := by
  rw [Lexer.reads_iff] at h ⊢
  rw [Lexer.lineTokens_take]
  exact List.forall₂_take_append _ _ _ h

theorem exists_first_declaration {labels : Labels}
    (h : ∃ name ∈ labels, some (.declaration name) ∈ told) : ∃ before name after,
      told = before ++ some (.declaration name) :: after ∧ name ∈ labels ∧
        ∀ other ∈ labels, some (.declaration other) ∉ before := by
  induction told with
  | nil =>
    obtain ⟨name, -, hmem⟩ := h
    cases hmem
  | cons phrase told ih =>
    by_cases hfirst : ∃ name ∈ labels, phrase = some (.declaration name)
    · obtain ⟨name, hname, rfl⟩ := hfirst
      exact ⟨[], name, told, rfl, hname, by simp⟩
    · have hrest : ∃ name ∈ labels, some (.declaration name) ∈ told := by
        obtain ⟨name, hname, hmem⟩ := h
        rcases List.mem_cons.1 hmem with heq | hmem
        · exact absurd ⟨name, hname, heq.symm⟩ hfirst
        · exact ⟨name, hname, hmem⟩
      obtain ⟨before, name, after, rfl, hname, hbefore⟩ := ih hrest
      refine ⟨phrase :: before, name, after, rfl, hname, fun other hother hmem => ?_⟩
      rcases List.mem_cons.1 hmem with heq | hmem
      · exact hfirst ⟨other, hother, heq.symm⟩
      · exact hbefore other hother hmem

end Grammar

/-! ### Labels that both texts declare -/

theorem Statement.tokens_of_declare {tokens : List Token} {name : String} {t : Token}
    (h : ofTokens tokens = .ok (some (.declare name t))) :
    tokens.filter Token.isSignificant = [t] := by
  obtain ⟨first, args, hfirst, ⟨-, rfl, hdeclare⟩ | ⟨-, _, _, -, -, hoperation⟩⟩ :=
    ofTokens_eq_some h
  · cases hdeclare
    exact hfirst
  · cases hoperation

namespace Program

/-- The token is the first declaration of the text whose name is among the labels. It is all
that its line has besides blanks and comments. -/
structure FirstShared (source : String) (labels : Labels) (name : String) (t : Token) : Prop where
  shared : name ∈ labels
  line : 1 ≤ t.line
  declared : SaysAt (Text.lines source.toList) (t.line - 1) (some (.declaration name))
  earlier : ∀ n other, n < t.line - 1 →
    SaysAt (Text.lines source.toList) n (some (.declaration other)) → other ∉ labels
  place : (Lexer.tokenize source).filter (fun u => u.isSignificant && u.line == t.line) = [t]

variable {source : String} {labels : Labels} {name : String} {p q : Program}
  {front : List (List Char)} {said before after : List (Option Phrase)}

theorem exists_firstShared
    (hreads : Reads (Text.lines source.toList) (before ++ some (.declaration name) :: after))
    (hname : name ∈ labels) (hbefore : ∀ other ∈ labels, some (.declaration other) ∉ before) :
    ∃ t group rest, FirstShared source labels name t ∧
      Lexer.lineTokens false 1 (Text.lines source.toList) =
        Lexer.lineTokens false 1 ((Text.lines source.toList).take before.length) ++ group :: rest ∧
      Statement.ofTokens group = .ok (some (.declare name t)) := by
  have hspeaks := List.forall₂_drop_append _ _ _ (Lexer.reads_iff.1 hreads)
  generalize hdrop : (Lexer.lineTokens false 1 (Text.lines source.toList)).drop before.length =
    behind at hspeaks
  cases hspeaks with
  | @cons group _ rest _ hgroup _ =>
    have hat : (Lexer.lineTokens false 1 (Text.lines source.toList))[before.length]? =
        some group := by
      rw [← Nat.add_zero before.length, ← List.getElem?_drop, hdrop]
      rfl
    obtain ⟨s, hs, hphrase⟩ := hgroup
    rcases s with _ | ⟨name', t⟩ | ⟨opcode, argument, line⟩
    · cases hphrase
    · cases hphrase
      have htokens := Statement.tokens_of_declare hs
      have ht : t ∈ group.filter Token.isSignificant := by
        rw [htokens]
        exact List.mem_cons_self
      have hline : t.line = 1 + before.length :=
        Lexer.line_of_getElem?_lineTokens hat (List.mem_of_mem_filter ht)
      have hindex : t.line - 1 = before.length := by omega
      refine ⟨t, group, rest, ⟨hname, by omega, ?_, ?_, ?_⟩, ?_, hs⟩
      · rw [hindex, ← hreads.getElem?_iff]
        simp
      · intro n other hn hsays hother
        rw [← hreads.getElem?_iff, List.getElem?_append_left (by omega)] at hsays
        exact hbefore other hother (List.mem_of_getElem? hsays)
      · have hfilter :=
          Lexer.filter_significant_of_mem_lineTokens (List.mem_of_getElem? hat) ht
        rwa [htokens] at hfilter
      · rw [Lexer.lineTokens_take, ← hdrop, List.take_append_drop]
    · cases hphrase

theorem exists_error_of_shared {whole : String}
    (hwhole : Text.lines whole.toList = front ++ Text.lines source.toList)
    (hclosed : Lexer.blockAfter false front = false) (hfront : Reads front said)
    (hp : Describes said p)
    (hreads : Reads (Text.lines source.toList) (before ++ some (.declaration name) :: after))
    (hq : Describes (before ++ some (.declaration name) :: after) q) (hname : name ∈ p.labels)
    (hbefore : ∀ other ∈ p.labels, some (.declaration other) ∉ before) :
    ∃ t, FirstShared source p.labels name t ∧ Program.parse whole =
      .error ⟨t.line + front.length, some t.span, .duplicateLabel name⟩ := by
  obtain ⟨t, group, rest, hfirst, hsplit, hgroup⟩ := exists_firstShared hreads hname hbefore
  refine ⟨t, hfirst, ?_⟩
  have honce : ((declarations 0 (said ++ before)).map Prod.fst).Nodup := by
    refine nodup_declarations_append hp.once ?_ fun other hsaid =>
      hbefore other (hp.mem_labels_iff.2 hsaid)
    have hall := hq.once
    rw [declarations_append, List.map_append] at hall
    exact hall.of_append_left
  -- Up to that line, the second text adds to the draft as it does alone.
  obtain ⟨d, hfold, hrecords⟩ := Draft.records_nil.exists_foldlM
    (Lexer.reads_iff.1 (hfront.append hclosed hreads.take)) honce
  rw [List.length_nil, Nat.zero_add] at hfold
  have hmem : name ∈ d.labels := by
    rw [hrecords.mem_labels_iff, List.nil_append, mem_declarations_iff]
    exact List.mem_append_left _ (hp.mem_labels_iff.1 hname)
  have hadd : d.addLine (group.map (Token.relocate (.down front.length))) =
      .error ⟨t.line + front.length, some t.span, .duplicateLabel name⟩ := by
    unfold Draft.addLine
    rw [Statement.ofTokens_relocate, hgroup]
    exact if_pos hmem
  rw [Program.parse_eq, hwhole, Lexer.lineTokens_append_of_closed hclosed, hsplit, List.map_append,
    List.map_cons, ← List.append_assoc, ← Lexer.lineTokens_append_of_closed hclosed,
    foldlM_append_cons_of_error hfold hadd]
  rfl

/-! ### Texts with an empty line between them -/

theorem lines_append_source (s₁ s₂ : String) : Text.lines (s₁ ++ "\n\n" ++ s₂).toList =
    Text.lines (s₁ ++ "\n\n").toList ++ Text.lines s₂.toList := by
  rw [String.toList_append, Text.lines_append_of_start (.inr (by simp))]

/-- The empty line closes a block that the first text may leave open. -/
theorem blockAfter_lines (s₁ : String) :
    Lexer.blockAfter false (Text.lines (s₁ ++ "\n\n").toList) = false := by
  have hfirst : (s₁ ++ "\n\n").toList = s₁.toList ++ '\n' :: ['\n'] := by simp
  have hempty : Text.lines ['\n'] = [[]] := rfl
  rw [hfirst, Text.lines_append, hempty, Lexer.blockAfter_concat]
  cases Lexer.blockAfter false (Text.lines (s₁.toList ++ ['\n'])) <;> rfl

theorem parse_append_feeds (s₁ : String) :
    Program.parse (s₁ ++ "\n\n") = Program.parse s₁ := by
  have hfirst : (s₁ ++ "\n\n").toList = s₁.toList ++ ['\n'] ++ ['\n'] := by simp
  apply parse_congr
  rw [hfirst, Text.kept_lines_append_feed, Text.kept_lines_append_feed]

/-- Texts link like programs. With an empty line between them, two texts are read as one
program unless they declare a label in common, and then the first such declaration of the
second text is the duplicate. -/
theorem parse_append {s₁ s₂ : String} {p₁ p₂ : Program} (h₁ : Program.parse s₁ = .ok p₁)
    (h₂ : Program.parse s₂ = .ok p₂) :
    let count := (Text.lines (s₁ ++ "\n\n").toList).length
    ((∃ p, Program.parse (s₁ ++ "\n\n" ++ s₂) = .ok p) ↔ ∀ name ∈ p₁.labels, name ∉ p₂.labels) ∧
    ((∀ name ∈ p₁.labels, name ∉ p₂.labels) →
      Program.parse (s₁ ++ "\n\n" ++ s₂) = .ok (p₁.link p₂ count)) ∧
    ((∃ name ∈ p₁.labels, name ∈ p₂.labels) → ∃ name t, FirstShared s₂ p₁.labels name t ∧
      Program.parse (s₁ ++ "\n\n" ++ s₂) =
        .error ⟨t.line + count, some t.span, .duplicateLabel name⟩) := by
  intro count
  rw [← parse_append_feeds, parse_eq_ok_iff] at h₁
  obtain ⟨said, hfront, hp⟩ := h₁
  obtain ⟨told, hback, hq⟩ := parse_eq_ok_iff.1 h₂
  have hclosed := blockAfter_lines s₁
  have hcount : said.length = count := hfront.1
  have hlinked (hdisjoint : ∀ name ∈ p₁.labels, name ∉ p₂.labels) :
      Program.parse (s₁ ++ "\n\n" ++ s₂) = .ok (p₁.link p₂ count) := by
    refine parse_eq_ok_iff.2 ⟨said ++ told, ?_, hcount ▸ hp.link hq hdisjoint⟩
    rw [lines_append_source]
    exact hfront.append hclosed hback
  have hshared (hboth : ∃ name ∈ p₁.labels, name ∈ p₂.labels) : ∃ name t,
      FirstShared s₂ p₁.labels name t ∧ Program.parse (s₁ ++ "\n\n" ++ s₂) =
        .error ⟨t.line + count, some t.span, .duplicateLabel name⟩ := by
    simp only [hq.mem_labels_iff] at hboth
    obtain ⟨before, name, after, rfl, hname, hbefore⟩ := exists_first_declaration hboth
    exact ⟨name, exists_error_of_shared (lines_append_source s₁ s₂) hclosed hfront hp hback hq
      hname hbefore⟩
  refine ⟨⟨?_, fun hdisjoint => ⟨_, hlinked hdisjoint⟩⟩, hlinked, hshared⟩
  rintro ⟨p, hparse⟩ name hfirst hsecond
  obtain ⟨_, t, -, herror⟩ := hshared ⟨name, hfirst, hsecond⟩
  rw [herror] at hparse
  cases hparse

theorem parse_append_block :
    let s₁ := "a:\njump b\nb:\ndefine x\r\nb:"
    let s₂ := "c:\ninbox\njumpz c"
    let s₃ := "c:\n  b: -- a\na:"
    let p₁ : Program := ⟨#[⟨.jump, .label "b" 1⟩], .ofList [("a", 0), ("b", 1)], #[2]⟩
    let p₂ : Program := ⟨#[⟨.inbox, .nothing⟩, ⟨.jumpz, .label "c" 0⟩], .ofList [("c", 0)], #[2, 3]⟩
    Program.parse (s₁ ++ "\n\n" ++ s₂) = .ok (p₁.link p₂ 6) ∧
      ∃ name t, FirstShared s₃ p₁.labels name t ∧ Program.parse (s₁ ++ "\n\n" ++ s₃) =
        .error ⟨t.line + 6, some t.span, .duplicateLabel name⟩ := by
  intro s₁ s₂ s₃ p₁ p₂
  let p₃ : Program := ⟨#[], .ofList [("a", 0), ("b", 0), ("c", 0)], #[]⟩
  have h₁ : Program.parse s₁ = .ok p₁ := by decide +kernel
  have h₂ : Program.parse s₂ = .ok p₂ := by decide +kernel
  have h₃ : Program.parse s₃ = .ok p₃ := by decide +kernel
  have hdisjoint : ∀ name ∈ p₁.labels, name ∉ p₂.labels := by
    have hkeys : ∀ name ∈ p₁.labels.keys, name ∉ p₂.labels := by decide +kernel
    exact fun name hname => hkeys name (Std.ExtTreeMap.mem_keys.2 hname)
  have hcount : (Text.lines (s₁ ++ "\n\n").toList).length = 6 := by decide +kernel
  have hlinked := (parse_append h₁ h₂).2.1 hdisjoint
  have hshared := (parse_append h₁ h₃).2.2 ⟨"a", by decide +kernel, by decide +kernel⟩
  rw [hcount] at hlinked hshared
  exact ⟨hlinked, hshared⟩

end Program
end TileMachine
