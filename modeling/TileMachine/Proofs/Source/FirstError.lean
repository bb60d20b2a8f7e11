import TileMachine.Proofs.Source.Blame
import TileMachine.Proofs.Source.LineTable
import TileMachine.Proofs.Source.Rendering

/-! The first error wins. A line is refused for what it says, or for a label that an
earlier line declares, so the complaint stays the same whatever lines follow and is not
made as long as the line is missing. Only where no line is refused are the jumps looked
up, in the order of the text. -/
namespace TileMachine
open Grammar

/-! ### Complaints about a line -/

/-- No label is missing: whatever is wrong, it is not that. -/
def Immediate {α : Type} (x : Except ParseError α) : Prop :=
  ∀ e, x = .error e → ∀ name, e.cause ≠ .undefinedLabel name

namespace Immediate

variable {α β : Type}

theorem ok (a : α) : Immediate (.ok a) := by
  intro e h
  cases h

theorem error {e : ParseError} (h : ∀ name, e.cause ≠ .undefinedLabel name) :
    Immediate (.error e : Except ParseError α) := by
  intro e' h'
  cases h'
  exact h

theorem bind {x : Except ParseError α} {f : α → Except ParseError β} (hx : Immediate x)
    (hf : ∀ a, Immediate (f a)) : Immediate (x >>= f) := by
  intro e h
  rcases bind_eq_error.1 h with hfirst | ⟨a, -, hnext⟩
  · exact hx e hfirst
  · exact hf a e hnext

theorem map {x : Except ParseError α} (f : α → β) (hx : Immediate x) : Immediate (f <$> x) :=
  fun e h => hx e (map_eq_error.1 h)

end Immediate

namespace Statement

theorem immediate_noMore (tokens : List Token) : Immediate (noMore tokens) := by
  cases tokens with
  | nil => exact .ok ()
  | cons t ts => exact .error nofun

theorem immediate_noMore_bind {α : Type} (tokens : List Token) (a : α) :
    Immediate (do noMore tokens; return a) :=
  (immediate_noMore tokens).bind fun _ => .ok a

theorem immediate_readAddress (t : Token) : Immediate (readAddress t) := by
  unfold readAddress
  split
  next => exact .error nofun
  next =>
    split
    next =>
      split
      next => exact .ok _
      next => exact .error nofun
    next => exact .error nofun

theorem immediate_readTile (opcode : Opcode) (first : Token) (rest : List Token) :
    Immediate (readTile opcode first rest) := by
  unfold readTile
  split
  next => exact (immediate_readAddress first).bind fun _ => immediate_noMore_bind _ _
  next =>
    split
    next => exact (immediate_readAddress _).bind fun _ => immediate_noMore_bind _ _
    next => exact .error nofun
  all_goals exact .error nofun

theorem immediate_readLabel (opcode : Opcode) (first : Token) (rest : List Token) :
    Immediate (readLabel opcode first rest) := by
  unfold readLabel
  split
  next => exact immediate_noMore_bind _ _
  next => exact immediate_noMore_bind _ _
  next => exact .error nofun

theorem immediate_readArgument (opcode : Opcode) (mnemonic : Token) (args : List Token) :
    Immediate (readArgument opcode mnemonic args) := by
  unfold readArgument
  split
  next => exact immediate_noMore_bind _ _
  next => exact .error nofun
  next => exact immediate_readTile _ _ _
  next => exact immediate_readLabel _ _ _

theorem immediate_ofTokens (tokens : List Token) : Immediate (ofTokens tokens) := by
  unfold ofTokens
  split
  next => exact .ok none
  next first args _ =>
    split
    next =>
      apply Immediate.map
      unfold readDeclaration
      dsimp only
      split
      next => exact immediate_noMore_bind _ _
      next => exact .error nofun
    next =>
      apply Immediate.map
      unfold readOperation
      split
      next => exact .error nofun
      next => exact (immediate_readArgument _ _ _).bind fun _ => .ok _
    next => exact .error nofun

end Statement

namespace Draft

theorem immediate_addLine (d : Draft) (tokens : List Token) : Immediate (d.addLine tokens) := by
  refine (Statement.immediate_ofTokens tokens).bind fun said => ?_
  cases said with
  | none => exact .ok d
  | some s =>
    cases s with
    | operation opcode argument line => exact .ok _
    | declare name token =>
      dsimp only [add]
      split
      next => exact .error nofun
      next => exact .ok _

end Draft

/-! ### Jumps to labels that no line declares -/

theorem Operation.resolve_eq_error {labels : Labels} {op : Operation} {e : ParseError}
    (h : op.resolve labels = .error e) : ∃ name span, op.argument = .label name span ∧
      name ∉ labels ∧ e = ⟨op.line, some span, .undefinedLabel name⟩ := by
  unfold Operation.resolve at h
  split at h
  next => cases h
  next => cases h
  next name span hlabel =>
    split at h
    next => cases h
    next hnone =>
      cases h
      exact ⟨name, span, hlabel, by simpa using hnone, rfl⟩

namespace Draft

variable {d : Draft} {e : ParseError} {groups : List (List Token)}

theorem exists_jump_of_finish (h : d.finish = .error e) : ∃ front op rest name span,
    d.operations.toList = front ++ op :: rest ∧ op.argument = .label name span ∧
      name ∉ d.labels ∧ e = ⟨op.line, some span, .undefinedLabel name⟩ ∧
      ∀ o ∈ front, ∃ i, o.resolve d.labels = .ok i := by
  unfold finish at h
  rcases bind_eq_error.1 h with hresolve | ⟨_, -, hpure⟩
  · rw [Array.mapM_eq_mapM_toList, map_eq_error] at hresolve
    obtain ⟨front, op, rest, hsplit, herror, hfront⟩ := exists_first_of_mapM hresolve
    obtain ⟨name, span, hlabel, hname, he⟩ := Operation.resolve_eq_error herror
    exact ⟨front, op, rest, name, span, hsplit, hlabel, hname, he, hfront⟩
  · cases hpure

theorem exists_group_of_mem (h : groups.foldlM addLine {} = .ok d) {op : Operation}
    (hop : op ∈ d.operations) : ∃ group ∈ groups,
      Statement.ofTokens group = .ok (some (.operation op.opcode op.argument op.line)) := by
  let Said (d : Draft) : Prop := ∀ op ∈ d.operations, ∃ group ∈ groups,
    Statement.ofTokens group = .ok (some (.operation op.opcode op.argument op.line))
  have hsaid : Said d := by
    refine foldlM_keeps (P := Said) (fun group hgroup d d' hd hadd => ?_) ?_ h
    · unfold addLine at hadd
      obtain ⟨s, hs, hadd⟩ := bind_eq_ok.1 hadd
      rcases s with _ | name | ⟨opcode, argument, line⟩
      · cases hadd
        exact hd
      · dsimp only [add] at hadd
        split at hadd
        next => cases hadd
        next =>
          cases hadd
          exact hd
      · cases hadd
        intro op hop
        rcases Array.mem_push.1 hop with hold | rfl
        · exact hd op hold
        · exact ⟨group, hgroup, hs⟩
    · intro op hop
      cases hop
      contradiction
  exact hsaid op hop

end Draft

theorem Statement.exists_tokens_of_jump {tokens : List Token} {opcode : Opcode} {name : String}
    {span : Span} {line : Nat}
    (h : ofTokens tokens = .ok (some (.operation opcode (.label name span) line))) :
    ∃ mnemonic label, tokens.filter Token.isSignificant = [mnemonic, label] ∧
      mnemonic.line = line ∧ label.text = name ∧ label.span = span := by
  obtain ⟨first, args, hfirst, ⟨-, -, hdeclare⟩ | ⟨-, _, _, -, hargument, hoperation⟩⟩ :=
    ofTokens_eq_some h
  · cases hdeclare
  · cases hoperation
    have hargues := argues_of_readArgument hargument
    generalize opcode.operandKind = kind at hargues
    cases hargues with
    | @label t => exact ⟨first, t, hfirst, rfl, rfl, rfl⟩

namespace Lexer

theorem filter_line_of_mem_lineTokens {inBlock : Bool} {first : Nat} {ls : List (List Char)}
    {group : List Token} (hgroup : group ∈ lineTokens inBlock first ls) {t : Token}
    (ht : t ∈ group) : (lexLines inBlock first ls).filter (·.line = t.line) = group := by
  induction ls generalizing inBlock first with
  | nil => cases hgroup
  | cons cs rest ih =>
    rw [lexLines_cons, List.filter_append]
    rw [lineTokens, List.mem_cons] at hgroup
    rcases hgroup with rfl | hgroup
    · have hhere : ∀ u ∈ place first 0 (lexLine inBlock cs).1, u.line = t.line := by
        intro u hu
        rw [line_of_mem_place hu, line_of_mem_place ht]
      have hlater : ∀ u ∈ lexLines (lexLine inBlock cs).2 (first + 1) rest, ¬u.line = t.line := by
        intro u hu
        have hline := line_of_mem_lexLines hu
        rw [line_of_mem_place ht]
        omega
      rw [List.filter_eq_self.2 (by simpa using hhere),
        List.filter_eq_nil_iff.2 (by simpa using hlater), List.append_nil]
    · have hbehind := le_line_of_mem_lineTokens hgroup ht
      have hhere : ∀ u ∈ place first 0 (lexLine inBlock cs).1, ¬u.line = t.line := by
        intro u hu
        rw [line_of_mem_place hu]
        omega
      rw [List.filter_eq_nil_iff.2 (by simpa using hhere), List.nil_append, ih hgroup]

theorem filter_significant_of_mem_lineTokens {inBlock : Bool} {first : Nat} {ls : List (List Char)}
    {group : List Token} (hgroup : group ∈ lineTokens inBlock first ls) {t : Token}
    (ht : t ∈ group.filter Token.isSignificant) :
    (lexLines inBlock first ls).filter (fun u => u.isSignificant && u.line == t.line) =
      group.filter Token.isSignificant := by
  have hfilter := filter_line_of_mem_lineTokens hgroup (List.mem_of_mem_filter ht)
  rw [← hfilter, List.filter_filter]
  rfl

end Lexer

namespace Grammar

theorem mem_operations_of_getElem? {said : List (Option Phrase)} {n : Nat} {opcode : Opcode}
    {argument : Argument} (h : said[n]? = some (some (.operation opcode argument)))
    (first : Nat) : ⟨first + n, opcode, argument⟩ ∈ operations first said := by
  induction said generalizing n first with
  | nil => simp at h
  | cons phrase said ih =>
    cases n with
    | zero =>
      rw [List.getElem?_cons_zero, Option.some.injEq] at h
      rw [h, operations]
      exact List.mem_cons_self
    | succ n =>
      have hlater := ih (by rwa [List.getElem?_cons_succ] at h) (first + 1)
      rw [Nat.add_assoc, Nat.add_comm 1] at hlater
      rcases phrase with _ | name | ⟨other, argument'⟩
      · exact hlater
      · exact hlater
      · exact List.mem_cons_of_mem _ hlater

end Grammar

theorem Draft.Records.mem_front {d : Draft} {said : List (Option Phrase)} (h : Records d said)
    {front rest : List TileMachine.Operation} {op o : TileMachine.Operation}
    (hsplit : d.operations.toList = front ++ op :: rest) (ho : o ∈ d.operations)
    (hline : o.line < op.line) : o ∈ front := by
  have hsorted : d.operations.toList.Pairwise fun a b => a.line < b.line := by
    have hlines := pairwise_operations 1 said
    rw [← h.operations, List.map_map, List.pairwise_map] at hlines
    exact hlines
  rw [← Array.mem_toList_iff, hsplit, List.mem_append, List.mem_cons] at ho
  rw [hsplit, List.pairwise_append, List.pairwise_cons] at hsorted
  rcases ho with hfront | rfl | hrest
  · exact hfront
  · exact absurd hline (Nat.lt_irrefl _)
  · exact absurd (hsorted.2.1.1 o hrest) (Nat.lt_asymm hline)

namespace Program

/-- The complaint is about the first jump of the text whose label no line declares, and it
points at that label. -/
structure FirstUndeclared (source name : String) (e : ParseError) : Prop where
  line : 1 ≤ e.line
  jump : ∃ opcode, SaysAt (Text.lines source.toList) (e.line - 1)
    (some (.operation opcode (.label name)))
  undeclared : ∀ n, ¬SaysAt (Text.lines source.toList) n (some (.declaration name))
  earlier : ∀ n opcode other, n < e.line - 1 →
    SaysAt (Text.lines source.toList) n (some (.operation opcode (.label other))) →
      ∃ m, SaysAt (Text.lines source.toList) m (some (.declaration other))
  place : ∃ mnemonic label,
    (Lexer.tokenize source).filter (fun t => t.isSignificant && t.line == e.line) =
        [mnemonic, label] ∧ label.text = name ∧ e.span = some label.span

variable {source : String} {d : Draft} {e : ParseError}

section
variable
  (hfold : (Lexer.lineTokens false 1 (Text.lines source.toList)).foldlM Draft.addLine {} = .ok d)
include hfold

theorem exists_tokens_of_mem {op : TileMachine.Operation} (hop : op ∈ d.operations)
    {name : String} {span : Span} (hlabel : op.argument = .label name span) :
    ∃ mnemonic label,
      (Lexer.tokenize source).filter (fun t => t.isSignificant && t.line == op.line) =
          [mnemonic, label] ∧ label.text = name ∧ label.span = span := by
  obtain ⟨group, hgroup, hsaid⟩ := Draft.exists_group_of_mem hfold hop
  rw [hlabel] at hsaid
  obtain ⟨mnemonic, label, htokens, hline, htext, hspan⟩ := Statement.exists_tokens_of_jump hsaid
  refine ⟨mnemonic, label, ?_, htext, hspan⟩
  have hmem : mnemonic ∈ group.filter Token.isSignificant := by
    rw [htokens]
    exact List.mem_cons_self
  have hfilter := Lexer.filter_significant_of_mem_lineTokens hgroup hmem
  rwa [hline, htokens] at hfilter

theorem firstUndeclared_of_finish {name : String} (hfinish : d.finish = .error e)
    (hname : e.cause = .undefinedLabel name) : FirstUndeclared source name e := by
  obtain ⟨front, op, rest, name, span, hsplit, hlabel, hundeclared, rfl, hfront⟩ :=
    Draft.exists_jump_of_finish hfinish
  cases hname
  obtain ⟨said, hsaid, hrecords⟩ := Draft.records_nil.foldlM hfold
  rw [List.nil_append] at hrecords
  have hreads : Reads (Text.lines source.toList) said := Lexer.reads_iff.2 hsaid
  have hdeclared (other : String) : other ∈ d.labels ↔
      ∃ n, SaysAt (Text.lines source.toList) n (some (.declaration other)) := by
    rw [hrecords.mem_labels_iff, mem_declarations_iff, hreads.mem_iff]
  have hop : op ∈ d.operations := by
    rw [← Array.mem_toList_iff, hsplit]
    simp
  have hspoken : op.spoken ∈ operations 1 said := by
    rw [← hrecords.operations]
    exact List.mem_map_of_mem (Array.mem_toList_iff.2 hop)
  obtain ⟨hline, hat⟩ := getElem?_of_mem_operations hspoken
  refine ⟨hline, ⟨op.opcode, ?_⟩, ?_, ?_, ?_⟩
  · have hsays := hreads.getElem?_iff.1 hat
    simpa [Operation.spoken, hlabel, Argument.spoken] using hsays
  · intro n hn
    exact hundeclared ((hdeclared name).2 ⟨n, hn⟩)
  · intro n opcode other hn hsays
    have hmem := mem_operations_of_getElem? (hreads.getElem?_iff.2 hsays) 1
    rw [← hrecords.operations] at hmem
    obtain ⟨o, ho, hsame⟩ := List.mem_map.1 hmem
    have hbefore : o.line < op.line := by
      change n < op.line - 1 at hn
      have hnumber : o.line = 1 + n := congrArg Grammar.Operation.line hsame
      omega
    obtain ⟨i, hi⟩ := hfront o (hrecords.mem_front hsplit (Array.mem_toList_iff.1 ho) hbefore)
    rw [Operation.resolve_eq_ok, hsame] at hi
    cases hi with
    | @label _ _ _ target htarget =>
      refine (hdeclared other).1 ?_
      rw [Std.ExtTreeMap.mem_iff_isSome_getElem?, htarget]
      rfl
  · obtain ⟨mnemonic, label, htokens, htext, hspan⟩ := exists_tokens_of_mem hfold hop hlabel
    exact ⟨mnemonic, label, htokens, htext, congrArg some hspan.symm⟩

end

end Program

/-! ### The first lines of a text -/

def Text.firstLines (count : Nat) (source : String) : String :=
  unlines (((lines source.toList).take count).map String.ofList)

theorem Draft.foldlM_map_dropReturn (d : Draft) (inBlock : Bool) (first : Nat)
    (ls : List (List Char)) :
    (Lexer.lineTokens inBlock first (ls.map Text.dropReturn)).foldlM addLine d =
      (Lexer.lineTokens inBlock first ls).foldlM addLine d := by
  have htrim : Text.trimEnd ∘ Text.dropReturn = Text.trimEnd := funext Text.trimEnd_dropReturn
  rw [← foldlM_map_trimEnd, List.map_map, htrim, foldlM_map_trimEnd]

namespace Program

theorem parse_firstLines (count : Nat) (source : String) : parse (Text.firstLines count source) =
    ((Lexer.lineTokens false 1 (Text.lines source.toList)).take count).foldlM Draft.addLine {} >>=
      Draft.finish := by
  have hlines : Text.lines (Text.firstLines count source).toList =
      ((Text.lines source.toList).take count).map Text.dropReturn := by
    unfold Text.firstLines
    rw [Text.lines_unlines_of_no_feed, List.map_map]
    · simp [Function.comp_def]
    · intro line hline
      obtain ⟨chars, hchars, rfl⟩ := List.mem_map.1 hline
      rw [String.toList_ofList]
      exact Text.feed_not_mem_of_mem_lines (List.mem_of_mem_take hchars)
  rw [parse_eq, hlines, Draft.foldlM_map_dropReturn, Lexer.lineTokens_take]

/-- Accepted, but for labels that may be missing. -/
def LabelsAside (outcome : Except ParseError Program) : Prop :=
  ∀ e, outcome = .error e → ∃ name, e.cause = .undefinedLabel name

theorem labelsAside_of_fold {source : String} {d : Draft} {count : Nat}
    (h : ((Lexer.lineTokens false 1 (Text.lines source.toList)).take count).foldlM
      Draft.addLine {} = .ok d) : LabelsAside (parse (Text.firstLines count source)) := by
  intro e he
  rw [parse_firstLines, h] at he
  obtain ⟨_, _, _, name, _, -, -, -, rfl, -⟩ := Draft.exists_jump_of_finish he
  exact ⟨name, rfl⟩

/-- A refused line is refused as soon as it is there, whatever follows. -/
theorem parse_firstLines_of_refused {source : String} {e : ParseError}
    (h : (Lexer.lineTokens false 1 (Text.lines source.toList)).foldlM Draft.addLine {} =
      .error e) :
    (∀ count, e.line ≤ count → parse (Text.firstLines count source) = .error e) ∧
      ∀ count, count < e.line → LabelsAside (parse (Text.firstLines count source)) := by
  obtain ⟨front, group, rest, d, hsplit, hfront, hgroup⟩ := exists_step_of_foldlM h
  have hline : e.line = front.length + 1 := by
    have hat : (Lexer.lineTokens false 1 (Text.lines source.toList))[front.length]? =
        some group := by
      rw [hsplit]
      simp
    rw [Nat.add_comm]
    exact ParseError.line_of_blames (Draft.blames_of_addLine hgroup) fun t ht =>
      Lexer.line_of_getElem?_lineTokens hat (List.mem_of_mem_filter ht)
  constructor
  · intro count hcount
    have htake : (front ++ group :: rest).take count =
        front ++ group :: rest.take (count - (front.length + 1)) := by
      have hcount' : count - front.length = count - (front.length + 1) + 1 := by omega
      rw [List.take_append, List.take_of_length_le (by omega), hcount', List.take_succ_cons]
    rw [parse_firstLines, hsplit, htake, foldlM_append_cons_of_error hfront hgroup]
    rfl
  · intro count hcount
    obtain ⟨d', hd'⟩ := foldlM_take_of_ok hfront count
    apply labelsAside_of_fold (d := d')
    rw [hsplit, List.take_append_of_le_length (by omega)]
    exact hd'

/-- The first error wins. A complaint about a line is made of the first lines as soon as
that line is among them, and none is made before but about missing labels. If a label is
missing, then no line is refused, and the complaint is about the first jump to a name that
the whole text does not declare. -/
theorem parse_firstLines_of_error {source : String} {e : ParseError}
    (h : parse source = .error e) :
    ((∀ name, e.cause ≠ .undefinedLabel name) →
      (∀ count, e.line ≤ count → parse (Text.firstLines count source) = .error e) ∧
        ∀ count, count < e.line → LabelsAside (parse (Text.firstLines count source))) ∧
    ∀ name, e.cause = .undefinedLabel name →
      (∀ count, LabelsAside (parse (Text.firstLines count source))) ∧
        FirstUndeclared source name e := by
  rw [parse_eq] at h
  rcases bind_eq_error.1 h with hrefused | ⟨d, hfold, hfinish⟩
  · refine ⟨fun _ => parse_firstLines_of_refused hrefused, fun name hname => ?_⟩
    obtain ⟨_, group, _, d, -, -, hgroup⟩ := exists_step_of_foldlM hrefused
    exact absurd hname (d.immediate_addLine group e hgroup name)
  · constructor
    · intro hcause
      obtain ⟨_, _, _, name, _, -, -, -, rfl, -⟩ := Draft.exists_jump_of_finish hfinish
      exact absurd rfl (hcause name)
    · intro name hname
      refine ⟨fun count => ?_, firstUndeclared_of_finish hfold hfinish hname⟩
      obtain ⟨d', hd'⟩ := foldlM_take_of_ok hfold count
      exact labelsAside_of_fold hd'

theorem parse_firstLines_of_error_jump :
    let source := "jump b\n  JUMPZ jumpz -- c\nb:\ndefine\njumpz:\n\njump c\n"
    let e : ParseError := ⟨2, some ⟨8, 13⟩, .undefinedLabel "jumpz"⟩
    parse source = .error e ∧ FirstUndeclared source "jumpz" e ∧
      LabelsAside (parse (Text.firstLines 1 source)) := by
  intro source e
  have hparse : parse source = .error e := by decide +kernel
  obtain ⟨haside, hfirst⟩ := (parse_firstLines_of_error hparse).2 "jumpz" rfl
  exact ⟨hparse, hfirst, haside 1⟩

end Program
end TileMachine
