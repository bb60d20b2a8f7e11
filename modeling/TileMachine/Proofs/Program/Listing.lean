import TileMachine.Program.Listing
import TileMachine.Proofs.Program.Printable
import TileMachine.Proofs.Text.Lines

/-! Reading a listing: its lines say the labels and instructions of the program, in
order, and they describe the program that was printed. -/
namespace TileMachine
open Grammar Text

namespace Grammar

structure Plain (line : List Char) (phrase : Option Phrase) : Prop where
  isLine : IsLine line
  noBlock : ¬StartsWith "define" line
  noComment : ¬StartsWith "comment" line
  spoken : Says line phrase

theorem reads_of_plain {ls : List (List Char)} {said : List (Option Phrase)}
    (h : List.Forall₂ Plain ls said) : Reads ls said := by
  obtain ⟨hlength, hplain⟩ := List.forall₂_iff_get.1 h
  refine ⟨hlength.symm, fun n phrase hn => ?_⟩
  obtain ⟨hlt, rfl⟩ := List.getElem?_eq_some_iff.1 hn
  have hline : ls[n]? = some ls[n] := List.getElem?_eq_getElem (by omega)
  have hn : Plain ls[n] said[n] := hplain n (by omega) hlt
  refine .inl ⟨ls[n], hline, ?_, hn.spoken⟩
  rw [skipped_iff hline]
  rintro (⟨first, -, hopens, -⟩ | hstarts | hstarts)
  · rw [Opens] at hopens
    obtain ⟨⟨line, hfirst, hstarts⟩, -⟩ := hopens
    obtain ⟨hlt, rfl⟩ := List.getElem?_eq_some_iff.1 hfirst
    exact (hplain first hlt (by omega)).noBlock hstarts
  · exact hn.noBlock hstarts
  · exact hn.noComment hstarts

theorem isCode_self {line : List Char} (h : ¬['-', '-'] <:+: line) : IsCode line line := by
  refine ⟨⟨[], (List.append_nil line).symm, .inl rfl⟩, fun k _ hk => h ?_⟩
  exact hk.isInfix.trans (List.drop_suffix k line).isInfix

theorem hyphens_append {front back : List Char} (h : ['-', '-'] <:+: front ++ back) :
    ['-', '-'] <:+: front ∨ ['-', '-'] <:+: back ∨ '-' ∈ front ∧ '-' ∈ back := by
  rcases List.infix_append_iff_ne_nil.1 h with hfront | hback | ⟨a, b, ha, hb, hab, hsuffix, hstart⟩
  · exact .inl hfront
  · exact .inr (.inl hback)
  · have hmem {c : Char} (hc : c ∈ a ++ b) : c = '-' := by
      rw [← hab] at hc
      simpa using hc
    refine .inr (.inr ⟨hsuffix.subset ?_, hstart.subset ?_⟩)
    · obtain ⟨c, tail, rfl⟩ := List.exists_cons_of_ne_nil ha
      simp [hmem (List.mem_append_left b List.mem_cons_self)]
    · obtain ⟨c, tail, rfl⟩ := List.exists_cons_of_ne_nil hb
      simp [hmem (List.mem_append_right a List.mem_cons_self)]

theorem plain_labelLine {name : String} (hword : IsWord name.toList)
    (hhyphens : ¬['-', '-'] <:+: name.toList) :
    Plain (Program.labelLine name).toList (some (.declaration name)) := by
  have hline : (Program.labelLine name).toList = name.toList ++ [':'] := by
    simp [Program.labelLine]
  have hlast : (name.toList ++ [':']).getLast? = some ':' := List.getLast?_concat
  have hblank : ∀ c ∈ name.toList ++ [':'], isBlank c = false := by
    intro c hc
    rcases List.mem_append.1 hc with hc | hc
    · exact (hword.2 c hc).1
    · rw [List.mem_singleton.1 hc]
      decide
  have hfirst : firstWord (name.toList ++ [':']) = name.toList ++ [':'] := by
    have h := @firstWord_eq [] (name.toList ++ [':']) [] (by simp) (by simp) hblank (by simp)
    rwa [List.nil_append, List.append_nil] at h
  -- A keyword does not end in a colon.
  have hkeyword (keyword : String) (hk : keyword.toList.getLast? ≠ some ':') :
      ¬StartsWith keyword (name.toList ++ [':']) := by
    intro h
    unfold StartsWith at h
    rw [hfirst] at h
    rw [← h] at hk
    simp at hk
  rw [hline]
  refine ⟨⟨fun hfeed => ?_, ?_⟩, hkeyword _ (by decide), hkeyword _ (by decide), ?_⟩
  · exact absurd (hblank _ hfeed) (by decide)
  · rw [hlast]
    decide
  · refine ⟨_, isCode_self fun h => ?_, ?_⟩
    · rcases hyphens_append h with h | h | ⟨-, h⟩
      · exact hhyphens h
      · exact absurd (h.subset List.mem_cons_self) (by decide)
      · exact absurd h (by decide)
    · rw [trim_of_no_blank hblank]
      have hname : trim (name.toList ++ [':']).dropLast = name.toList := by
        rw [List.dropLast_concat, trim_of_no_blank fun c hc => (hword.2 c hc).1]
      have hmeans := Means.declaration hlast hname hword
      rwa [String.ofList_toList] at hmeans

theorem mnemonic_chars (opcode : Opcode) : ∀ c ∈ opcode.mnemonic.toList,
    isBlank c = false ∧ c ≠ '[' ∧ c ≠ ']' ∧ c ≠ '-' ∧ c ≠ ':' := by
  have hall : opcode.mnemonic.toList.all (fun c =>
      !isBlank c && c != '[' && c != ']' && c != '-' && c != ':') = true := by
    cases opcode <;> rfl
  intro c hc
  simpa [and_assoc] using List.all_eq_true.1 hall c hc

theorem isWord_mnemonic (opcode : Opcode) : IsWord opcode.mnemonic.toList := by
  refine ⟨by cases opcode <;> decide, fun c hc => ?_⟩
  obtain ⟨hblank, hleft, hright, -⟩ := mnemonic_chars opcode c hc
  exact ⟨hblank, hleft, hright⟩

def indentation : List Char := [' ', ' ', ' ', ' ']

theorem isBlank_of_mem_indentation : ∀ c ∈ indentation, isBlank c = true := by
  intro c hc
  have hspace : c = ' ' := by simpa [indentation] using hc
  subst hspace
  rfl

theorem plain_operation {opcode : Opcode} {argument : Argument} {tail : List Char}
    {ws : List (List Char)} (hsplits : Splits tail ws) (htakes : Takes opcode.operandKind ws argument)
    (hhead : ∀ c, tail.head? = some c → isBlank c = true)
    (hlast : ∀ c, tail.getLast? = some c → isBlank c = false ∧ c ≠ ':')
    (hhyphens : ¬['-', '-'] <:+: tail) (hfeed : '\n' ∉ tail) :
    Plain (indentation ++ (opcode.mnemonic.toList ++ tail)) (some (.operation opcode argument)) := by
  have hmnemonic := isWord_mnemonic opcode
  have hfirst : firstWord (indentation ++ (opcode.mnemonic.toList ++ tail)) =
      opcode.mnemonic.toList := by
    rw [← List.append_assoc]
    exact firstWord_eq isBlank_of_mem_indentation hmnemonic.1 (fun c hc => (hmnemonic.2 c hc).1) hhead
  have hend : ∀ c, (opcode.mnemonic.toList ++ tail).getLast? = some c →
      isBlank c = false ∧ c ≠ ':' := by
    intro c hc
    rw [List.getLast?_append] at hc
    cases htail : tail.getLast? with
    | none =>
      rw [htail, Option.none_or] at hc
      obtain ⟨hblank, -, -, -, hcolon⟩ := mnemonic_chars opcode c (List.mem_of_getLast? hc)
      exact ⟨hblank, hcolon⟩
    | some d =>
      rw [htail, Option.some_or] at hc
      exact hlast c (hc ▸ htail)
  have htrim : trim (indentation ++ (opcode.mnemonic.toList ++ tail)) =
      opcode.mnemonic.toList ++ tail := by
    rw [trim_blanks_append isBlank_of_mem_indentation]
    apply trim_eq_self _ fun c hc => (hend c hc).1
    intro c hc
    rw [List.head?_append_of_ne_nil _ hmnemonic.1] at hc
    exact (hmnemonic.2 c (List.mem_of_head? hc)).1
  refine ⟨⟨fun hmem => ?_, fun hreturn => ?_⟩, ?_, ?_, _, isCode_self fun h => ?_, ?_⟩
  · rcases List.mem_append.1 hmem with hmem | hmem
    · exact absurd hmem (by decide)
    · rcases List.mem_append.1 hmem with hmem | hmem
      · exact absurd (hmnemonic.2 _ hmem).1 (by decide)
      · exact hfeed hmem
  · rw [List.getLast?_append_of_ne_nil _ (List.append_ne_nil_of_left_ne_nil hmnemonic.1 tail)]
      at hreturn
    exact absurd (hend _ hreturn).1 (by decide)
  · unfold StartsWith
    rw [hfirst]
    cases opcode <;> decide
  · unfold StartsWith
    rw [hfirst]
    cases opcode <;> decide
  · have hno : '-' ∉ opcode.mnemonic.toList := fun h => (mnemonic_chars opcode _ h).2.2.2.1 rfl
    rcases hyphens_append h with h | h | ⟨h, -⟩
    · exact absurd (h.subset List.mem_cons_self) (by decide)
    · rcases hyphens_append h with h | h | ⟨h, -⟩
      · exact hno (h.subset List.mem_cons_self)
      · exact hhyphens h
      · exact hno h
    · exact absurd h (by decide)
  · rw [htrim]
    refine .operation (fun hcolon => (hend _ hcolon).2 rfl) (.word hmnemonic ?_ hsplits) ?_ htakes
    · exact fun c hc => not_inWord_of_blank (hhead c hc)
    · cases opcode <;> decide

theorem plain_operation_space {opcode : Opcode} {argument : Argument} {text : List Char}
    {ws : List (List Char)} (hsplits : Splits text ws) (htakes : Takes opcode.operandKind ws argument)
    (hne : text ≠ []) (hblank : ∀ c ∈ text, isBlank c = false)
    (hcolon : text.getLast? ≠ some ':') (hhyphens : ¬['-', '-'] <:+: text) :
    Plain (indentation ++ (opcode.mnemonic.toList ++ ' ' :: text))
      (some (.operation opcode argument)) := by
  have hspace : isBlank ' ' = true := by decide
  apply plain_operation (.blank hspace hsplits) htakes
  · rintro _ ⟨⟩
    exact hspace
  · intro c hc
    rw [List.getLast?_cons_of_ne_nil hne] at hc
    exact ⟨hblank c (List.mem_of_getLast? hc), fun hc' => hcolon (hc' ▸ hc)⟩
  · change ¬['-', '-'] <:+: [' '] ++ text
    intro h
    rcases hyphens_append h with h | h | ⟨h, -⟩
    · exact absurd (h.subset List.mem_cons_self) (by decide)
    · exact hhyphens h
    · exact absurd h (by decide)
  · intro h
    rcases List.mem_cons.1 h with h | h
    · exact absurd h (by decide)
    · exact absurd (hblank _ h) (by decide)

theorem digit_chars {c : Char} (h : c.isDigit = true) : InWord c ∧ c ≠ '-' ∧ c ≠ ':' := by
  have hrange : 48 ≤ c.toNat ∧ c.toNat ≤ 57 := by
    simpa [Char.isDigit, UInt32.le_iff_toNat_le] using h
  have hne (d : Char) (hd : d.toNat < 48 ∨ 57 < d.toNat) : c ≠ d := by
    rintro rfl
    omega
  refine ⟨⟨?_, hne '[' (by decide), hne ']' (by decide)⟩, hne '-' (by decide), hne ':' (by decide)⟩
  simp only [isBlank, Bool.or_eq_false_iff, Bool.and_eq_false_iff, decide_eq_false_iff_not,
    beq_eq_false_iff_ne]
  omega

theorem IsDigits.isWord {cs : List Char} (h : IsDigits cs) : IsWord cs :=
  ⟨h.1, fun c hc => (digit_chars (h.2 c hc)).1⟩

theorem IsWord.splits {w : List Char} (h : IsWord w) : Splits w [w] := by
  have hsplits := Splits.word h (by simp) .nil
  rwa [List.append_nil] at hsplits

theorem isDigits_toDigits (n : Nat) : IsDigits (Nat.toDigits 10 n) :=
  (Decimal.digits?_eq_some_iff.1 (Decimal.digits?_toDigits n)).1

theorem numeral_toDigits {n : Nat} (h : n ≤ maxAddress) : Numeral (Nat.toDigits 10 n) n :=
  .plain (isDigits_toDigits n) (Decimal.digits?_eq_some_iff.1 (Decimal.digits?_toDigits n)).2 h

theorem exists_splits_address {address : Address} (h : ∀ n, address = .direct n ∨ address = .indirect n →
    n ≤ maxAddress) : ∃ ws, Splits address.text.toList ws ∧ Takes .tile ws (.tile address) := by
  cases address with
  | direct n =>
    refine ⟨[Nat.toDigits 10 n], ?_, .direct (numeral_toDigits (h n (.inl rfl)))⟩
    rw [Address.text, Decimal.ofNat, String.toList_ofList]
    exact (isDigits_toDigits n).isWord.splits
  | indirect n =>
    refine ⟨[['['], Nat.toDigits 10 n, [']']], ?_, .indirect (numeral_toDigits (h n (.inr rfl)))⟩
    have htext : (Address.indirect n).text.toList = '[' :: (Nat.toDigits 10 n ++ [']']) := by
      simp [Address.text, Decimal.ofNat]
    rw [htext]
    refine .bracket (.inl rfl) (.word (isDigits_toDigits n).isWord ?_ (.bracket (.inr rfl) .nil))
    rintro _ ⟨⟩ hword
    exact hword.2.2 rfl

theorem address_chars (address : Address) : ∀ c ∈ address.text.toList,
    isBlank c = false ∧ c ≠ '-' ∧ c ≠ ':' := by
  have hdigits (n : Nat) : ∀ c ∈ Nat.toDigits 10 n, isBlank c = false ∧ c ≠ '-' ∧ c ≠ ':' := by
    intro c hc
    obtain ⟨hword, hhyphen, hcolon⟩ := digit_chars ((isDigits_toDigits n).2 c hc)
    exact ⟨hword.1, hhyphen, hcolon⟩
  intro c hc
  cases address with
  | direct n => exact hdigits n c (by simpa [Address.text, Decimal.ofNat] using hc)
  | indirect n =>
    have hc : c = '[' ∨ c ∈ Nat.toDigits 10 n ∨ c = ']' := by
      simpa [Address.text, Decimal.ofNat] using hc
    rcases hc with rfl | hc | rfl
    · decide
    · exact hdigits n c hc
    · decide

end Grammar

def Operand.spoken : Operand → Grammar.Argument
  | .nothing => .nothing
  | .tile address => .tile address
  | .label name _ => .label name

def Instruction.phrase (i : Instruction) : Phrase :=
  .operation i.opcode i.operand.spoken

theorem Instruction.plain_line {i : Instruction} (hi : i.WellFormed)
    (haddress : ∀ n, i.operand = .tile (.direct n) ∨ i.operand = .tile (.indirect n) →
      n ≤ maxAddress)
    (hname : ∀ name target, i.operand = .label name target →
      (IsWord name.toList ∧ ¬['-', '-'] <:+: name.toList) ∧ name.toList.getLast? ≠ some ':') :
    Plain (Program.instructionLine i).toList (some i.phrase) := by
  obtain ⟨opcode, operand⟩ := i
  have hkind : operand.kind = opcode.operandKind := hi
  cases operand with
  | nothing =>
    have hline : (Program.instructionLine ⟨opcode, .nothing⟩).toList =
        indentation ++ (opcode.mnemonic.toList ++ []) := by
      simp [Program.instructionLine, Instruction.text, indentation]
    rw [hline]
    exact plain_operation .nil (hkind ▸ .nothing) (by simp) (by simp) (by simp) (by simp)
  | tile address =>
    have hline : (Program.instructionLine ⟨opcode, .tile address⟩).toList =
        indentation ++ (opcode.mnemonic.toList ++ ' ' :: address.text.toList) := by
      simp [Program.instructionLine, Instruction.text, indentation]
    have hchars := address_chars address
    have hsmall : ∀ n, address = .direct n ∨ address = .indirect n → n ≤ maxAddress := by
      simpa using haddress
    obtain ⟨ws, hsplits, htakes⟩ := exists_splits_address hsmall
    rw [hline]
    refine plain_operation_space hsplits (hkind ▸ htakes) ?_ (fun c hc => (hchars c hc).1)
      (fun hc => ?_) fun h => ?_
    · cases address with
      | direct n => simp [Address.text, Decimal.ofNat, Nat.toDigits_ne_nil]
      | indirect n => simp [Address.text]
    · exact (hchars _ (List.mem_of_getLast? hc)).2.2 rfl
    · exact (hchars _ (h.subset List.mem_cons_self)).2.1 rfl
  | label name target =>
    have hline : (Program.instructionLine ⟨opcode, .label name target⟩).toList =
        indentation ++ (opcode.mnemonic.toList ++ ' ' :: name.toList) := by
      simp [Program.instructionLine, Instruction.text, indentation]
    obtain ⟨⟨hword, hhyphens⟩, hcolon⟩ := hname name target rfl
    have htakes : Takes .label [name.toList] (.label (String.ofList name.toList)) := by
      refine .label (fun h => ?_) fun h => ?_
      · exact (hword.2 '[' (by simp [h])).2.1 rfl
      · exact (hword.2 ']' (by simp [h])).2.2 rfl
    rw [String.ofList_toList] at htakes
    rw [hline]
    exact plain_operation_space hword.splits (hkind ▸ htakes) hword.1
      (fun c hc => (hword.2 c hc).1) hcolon hhyphens

namespace Program

variable {p : Program}

def chunk (p : Program) (i : Instruction × Nat) : List Phrase :=
  (p.labelsAt i.2).map .declaration ++ [i.1.phrase]

def phrases (p : Program) : List Phrase :=
  p.instructions.toList.zipIdx.flatMap p.chunk ++
    (p.labelsWhere (p.length ≤ ·)).map .declaration

def phraseLine : Phrase → String
  | .declaration name => labelLine name
  | .operation opcode .nothing => instructionLine ⟨opcode, .nothing⟩
  | .operation opcode (.tile address) => instructionLine ⟨opcode, .tile address⟩
  | .operation opcode (.label name) => instructionLine ⟨opcode, .label name 0⟩

theorem phraseLine_phrase (i : Instruction) : phraseLine i.phrase = instructionLine i := by
  obtain ⟨opcode, operand⟩ := i
  cases operand <;> rfl

theorem listingLines_eq (p : Program) : p.listingLines = p.phrases.map phraseLine := by
  have hlabel : phraseLine ∘ Phrase.declaration = labelLine := rfl
  unfold listingLines phrases chunk
  rw [List.map_append, List.map_flatMap, List.map_map, hlabel]
  simp only [List.map_append, List.map_map, hlabel, List.map_cons, List.map_nil, phraseLine_phrase]

theorem mem_labelsWhere {test : Nat → Bool} {name : String} : name ∈ p.labelsWhere test ↔
    ∃ target, p.labels[name]? = some target ∧ test target = true := by
  unfold labelsWhere
  simp [Std.ExtTreeMap.mem_toList_iff_getElem?_eq_some]

theorem mem_labels_of_mem_labelsWhere {test : Nat → Bool} {name : String}
    (h : name ∈ p.labelsWhere test) : name ∈ p.labels := by
  obtain ⟨target, htarget, -⟩ := mem_labelsWhere.1 h
  exact Std.ExtTreeMap.mem_iff_isSome_getElem?.2 (Option.isSome_of_eq_some htarget)

theorem nodup_labelsWhere (p : Program) (test : Nat → Bool) : (p.labelsWhere test).Nodup := by
  have hkeys := p.labels.distinct_keys_toList
  simp only [Std.LawfulEqOrd.compare_eq_iff_eq] at hkeys
  exact List.pairwise_map.2 (hkeys.filter _)

theorem Printable.plain (h : p.Printable) {phrase : Phrase} (hmem : phrase ∈ p.phrases) :
    Plain (phraseLine phrase).toList (some phrase) := by
  have hlabel {test : Nat → Bool} (hmem : phrase ∈ (p.labelsWhere test).map .declaration) :
      Plain (phraseLine phrase).toList (some phrase) := by
    obtain ⟨name, hname, rfl⟩ := List.mem_map.1 hmem
    obtain ⟨hword, hhyphens⟩ := h.names name (mem_labels_of_mem_labelsWhere hname)
    exact plain_labelLine hword hhyphens
  rcases List.mem_append.1 hmem with hmem | hmem
  · obtain ⟨⟨i, index⟩, hi, hmem⟩ := List.mem_flatMap.1 hmem
    rcases List.mem_append.1 hmem with hmem | hmem
    · exact hlabel hmem
    · rw [List.mem_singleton.1 hmem, phraseLine_phrase]
      have hi : i ∈ p.instructions := by
        rw [List.mk_mem_zipIdx_iff_getElem?] at hi
        exact Array.mem_toList_iff.1 (List.mem_of_getElem? hi)
      obtain ⟨hformed, htargets⟩ := (errors_eq_nil_iff.1 h.valid).2 i hi
      refine i.plain_line hformed (h.addresses i hi) fun name target hoperand => ?_
      have htarget := Option.isSome_of_eq_some (htargets name target hoperand)
      exact ⟨h.names name (Std.ExtTreeMap.mem_iff_isSome_getElem?.2 htarget),
        h.jumps i hi name target hoperand⟩
  · exact hlabel hmem

theorem plain_heading : Plain heading.toList none := by
  refine ⟨by decide, by decide, by decide, [], ⟨⟨heading.toList, rfl, .inr ?_⟩, by simp⟩, .empty rfl⟩
  exact ⟨_, rfl⟩

theorem plain_empty : Plain "".toList none :=
  ⟨by decide, by decide, by decide, [], ⟨⟨[], rfl, .inl rfl⟩, by simp⟩, .empty rfl⟩

theorem Printable.reads_listing (h : p.Printable) :
    Reads (Text.lines p.listing.toList) (none :: none :: p.phrases.map some) := by
  have hplain : List.Forall₂ Plain ((heading :: "" :: p.listingLines).map String.toList)
      (none :: none :: p.phrases.map some) := by
    rw [listingLines_eq]
    refine .cons plain_heading (.cons plain_empty ?_)
    rw [List.map_map, List.forall₂_map_left_iff, List.forall₂_map_right_iff, List.forall₂_same]
    exact fun phrase => h.plain
  have hlines : ∀ line ∈ heading :: "" :: p.listingLines, IsLine line.toList := by
    intro line hline
    obtain ⟨phrase, -, hphrase⟩ := exists_mem_of_mem_left hplain (List.mem_map_of_mem hline)
    exact hphrase.isLine
  unfold listing
  rw [lines_unlines hlines]
  exact reads_of_plain hplain

end Program
end TileMachine
