import TileMachine.Proofs.Source.Blame
import TileMachine.Proofs.Source.Blocks
import TileMachine.Proofs.Source.Relocation
import TileMachine.Proofs.Source.Rendering

/-! Layout does not matter. A comment behind a line and blanks in front of it change neither
what the line says nor whether it is skipped, and it is all the same whether lines end in a
carriage return. Only the spans of complaints about a line move along with it. -/
namespace TileMachine
open Text Grammar

/-! ### Lines that are moved to the right -/

/-- The complaint about a text whose lines are moved to the right, each by a number of bytes
of its own. -/
def ParseError.indent (shift : Nat → Nat) (e : ParseError) : ParseError :=
  e.relocate (.right (shift e.line))

theorem ParseError.indent_zero : ParseError.indent (fun _ => 0) = id := by
  funext e
  obtain ⟨line, span, cause⟩ := e
  cases span <;> rfl

def Operation.indent (shift : Nat → Nat) (op : Operation) : Operation :=
  { op with argument := op.argument.relocate (.right (shift op.line)) }

namespace Draft

variable {shift : Nat → Nat} {moved tokens : List Token}

def Indented (shift : Nat → Nat) (moved tokens : List Token) : Prop :=
  ∃ line, (∀ t ∈ tokens, t.line = line) ∧ moved.filter Token.isSignificant =
    (tokens.filter Token.isSignificant).map (Token.relocate (.right (shift line)))

theorem addLine_indented (h : Indented shift moved tokens) (d : Draft) :
    (d.mapOperations (Operation.indent shift)).addLine moved =
      mapOperations (Operation.indent shift) <$>
        (d.addLine tokens).mapError (ParseError.indent shift) := by
  obtain ⟨line, hline, hmoved⟩ := h
  have hsignificant : ∀ t ∈ tokens.filter Token.isSignificant, t.line = line :=
    fun t ht => hline t (List.mem_of_mem_filter ht)
  have hadd : (d.mapOperations (Operation.indent shift)).addLine moved =
      mapOperations (Operation.indent shift) <$>
        (d.addLine tokens).mapError (ParseError.relocate (.right (shift line))) := by
    rw [← addLine_filter _ moved, hmoved, addLine_relocate, addLine_filter]
    intro opcode argument number hsaid
    obtain ⟨t, ht, rfl⟩ := Statement.line_of_ofTokens hsaid
    rw [Operation.indent, hsignificant t ht]
    rfl
  rw [hadd]
  cases herror : d.addLine tokens with
  | ok d' => rfl
  | error e =>
    have he : e.line = line :=
      ParseError.line_of_blames (blames_of_addLine herror) hsignificant
    rw [Except.mapError, Except.mapError, ParseError.indent, he]

theorem foldlM_indented {groups groups' : List (List Token)}
    (h : List.Forall₂ (Indented shift) groups' groups) (d : Draft) :
    groups'.foldlM addLine (d.mapOperations (Operation.indent shift)) =
      mapOperations (Operation.indent shift) <$>
        (groups.foldlM addLine d).mapError (ParseError.indent shift) := by
  induction h generalizing d with
  | nil => rfl
  | cons hgroup _ ih =>
    rw [List.foldlM_cons, List.foldlM_cons, addLine_indented hgroup, mapError_bind, bind_map_left,
      map_bind]
    apply congrArg
    funext d'
    exact ih d'

theorem finish_indent (d : Draft) : (d.mapOperations (Operation.indent shift)).finish =
    d.finish.mapError (ParseError.indent shift) := by
  have hresolve (labels : Labels) (op : Operation) :
      ((op.indent shift).resolve labels).mapError id =
        (op.resolve labels).mapError (ParseError.indent shift) := by
    obtain ⟨opcode, argument, line⟩ := op
    cases argument with
    | nothing => rfl
    | tile address => rfl
    | label name span =>
      simp only [Operation.resolve, Operation.indent, Argument.relocate]
      split <;> rfl
  have hfinish := mapError_finish (f := Operation.indent shift) (fun _ => rfl) hresolve d
  rwa [mapError_id] at hfinish

theorem bind_finish_indented {groups groups' : List (List Token)}
    (h : List.Forall₂ (Indented shift) groups' groups) :
    groups'.foldlM addLine {} >>= finish =
      (groups.foldlM addLine {} >>= finish).mapError (ParseError.indent shift) := by
  have hempty : mapOperations (Operation.indent shift) {} = {} := by simp [mapOperations]
  have hfold := foldlM_indented h {}
  rw [hempty] at hfold
  rw [hfold, mapError_bind, bind_map_left]
  apply congrArg
  funext d
  exact d.finish_indent

end Draft

namespace Lexer

theorem place_right (line start bytes : Nat) (lexemes : List Lexeme) :
    place line (start + bytes) lexemes =
      (place line start lexemes).map (Token.relocate (.right bytes)) := by
  induction lexemes generalizing start with
  | nil => rfl
  | cons l ls ih =>
    have hstop : start + bytes + byteLength l.text = start + byteLength l.text + bytes := by omega
    rw [place, place, List.map_cons, hstop, ih]
    rfl

theorem indented_self {shift : Nat → Nat} {inBlock : Bool} {first : Nat} {ls : List (List Char)}
    (h : ∀ k, first ≤ k → k < first + ls.length → shift k = 0) :
    List.Forall₂ (Draft.Indented shift) (lineTokens inBlock first ls)
      (lineTokens inBlock first ls) := by
  induction ls generalizing inBlock first with
  | nil => exact .nil
  | cons line ls ih =>
    rw [List.length_cons] at h
    refine .cons ⟨first, fun t => line_of_mem_place, ?_⟩ (ih fun k hle hlt => h k ?_ ?_)
    · rw [h first (Nat.le_refl first) (by omega)]
      exact (List.map_id _).symm
    · omega
    · omega

/-! ### Blanks in front of a line -/

theorem lexCode_trimStart (code : List Char) :
    lexCode code = lexeme .blank (leading code) ++ lexCode (trimStart code) := by
  have hlast : (trimEnd (trimStart code)).getLast? = (trimEnd code).getLast? := getLast?_trim code
  have hnone : leading (trimStart code) = [] := by
    cases hstart : trimStart code with
    | nil => rfl
    | cons c rest =>
      have hhead : (trimStart code).head? = some c := by
        rw [hstart]
        rfl
      have hc := head?_trimStart_not_blank hhead
      exact List.takeWhile_cons_of_neg (by simp [hc])
  have hstart : trimStart (trimStart code) = trimStart code := by
    have happend := leading_append_trimStart (trimStart code)
    rwa [hnone] at happend
  unfold lexCode
  rw [hlast]
  split
  next hcolon =>
    have hne : trimEnd code ≠ [] := List.ne_nil_of_mem (List.mem_of_getLast? hcolon)
    have htrailing : trailing (trimStart code) = trailing code := by
      have hcode : trimEnd code ++ trailing (trimStart code) = code := by
        rw [← leading_append_trim hne, List.append_assoc]
        change leading code ++ (trimEnd (trimStart code) ++ trailing (trimStart code)) = code
        rw [trimEnd_append_trailing, leading_append_trimStart]
      have hend := trimEnd_append_trailing code
      exact List.append_cancel_left (hcode.trans hend.symm)
    have htrim : trim (trimStart code) = trim code := by
      unfold trim
      rw [hstart]
    rw [hnone, htrim, htrailing, List.append_assoc]
    rfl
  next =>
    have hblank : ∀ c ∈ leading code, isBlank c = true := fun c => isBlank_of_mem_leading
    have hapart : ∀ a ∈ (leading code).getLast?, ∀ b ∈ (trimStart code).head?,
        sameRun a b = false := by
      intro a ha b hb
      have hother := sameRun_of_blank (head?_trimStart_not_blank hb)
        (hblank a (List.mem_of_getLast? ha))
      rw [← Bool.not_eq_true, sameRun_iff] at hother ⊢
      rintro ⟨hclass, hbracket⟩
      exact hother ⟨hclass.symm, hclass ▸ hbracket⟩
    conv_lhs => rw [← leading_append_trimStart code, List.splitBy_append hapart, List.map_append,
      runs_of_blanks hblank]

theorem filter_place_blanks_append (number : Nat) {pad : List Char}
    (hpad : ∀ c ∈ pad, isBlank c = true) (code : List Char) :
    (place number 0 (lexCode (pad ++ code))).filter Token.isSignificant =
      ((place number 0 (lexCode code)).filter Token.isSignificant).map
        (Token.relocate (.right (byteLength pad))) := by
  have hstart (cs : List Char) : (place number 0 (lexCode cs)).filter Token.isSignificant =
      (place number (byteLength (leading cs)) (lexCode (trimStart cs))).filter
        Token.isSignificant := by
    rw [lexCode_trimStart, place_append, List.filter_append,
      filter_place_of_none (filter_lexeme_blank _), List.nil_append,
      (spells_lexeme .blank (leading cs)).text, Nat.zero_add]
  have hleading : leading (pad ++ code) = pad ++ leading code :=
    List.takeWhile_append_of_pos hpad
  have htrim : trimStart (pad ++ code) = trimStart code := List.dropWhile_append_of_pos hpad
  rw [hstart, hstart code, hleading, htrim, byteLength_append, Nat.add_comm, place_right,
    List.filter_map]
  rfl

/-! ### Lines that are read -/

theorem keyless_iff {line : List Char} :
    Keyless line ↔ ¬StartsWith "define" line ∧ ¬StartsWith "comment" line := by
  simp [Keyless, ← startsWithKeyword_iff]

theorem filter_place_of_keyless {line : List Char} (h : Keyless line) (number : Nat) :
    (place number 0 (lexLine false line).1).filter Token.isSignificant =
      (place number 0 (lexCode (splitComment line).1)).filter Token.isSignificant := by
  rw [lexLine_of_keyless h, filter_place_append (filter_lexeme_comment _)]

theorem Keyless.blanks_append {pad line : List Char} (h : Keyless line)
    (hpad : ∀ c ∈ pad, isBlank c = true) : Keyless (pad ++ line) := by
  intro keyword hkeyword
  unfold startsWithKeyword
  rw [firstWord_blanks_append hpad]
  exact h keyword hkeyword

theorem Keyless.append_comment {line : List Char} (h : Keyless line) (text : List Char) :
    Keyless (line ++ ' ' :: '-' :: '-' :: text) := by
  intro keyword hkeyword
  -- If the line is blank, then its first word is now that of the comment.
  by_cases hblank : trimStart line = []
  · have hword : '-' ∈ firstWord (line ++ ' ' :: '-' :: '-' :: text) := by
      have hall : ∀ c ∈ line ++ [' '], isBlank c = true := by
        rw [List.forall_mem_append, List.forall_mem_singleton]
        exact ⟨List.dropWhile_eq_nil_iff.1 hblank, by decide⟩
      rw [← List.singleton_append, ← List.append_assoc, firstWord_blanks_append hall]
      exact List.mem_cons_self
    have hhyphen : ∀ keyword ∈ ["define", "comment"], Char.toLower '-' ∉ keyword.toList := by
      decide
    exact startsWithKeyword_eq_false hword (hhyphen keyword hkeyword)
  · unfold startsWithKeyword
    rw [firstWord_append_blank hblank (by decide)]
    exact h keyword hkeyword

theorem forall₂_indented {front rest : List (List Char)} {line line' : List Char} {bytes : Nat}
    (hclosed : blockAfter false front = false) (hline : Keyless line) (hline' : Keyless line')
    (hmoved : ∀ number, (place number 0 (lexLine false line').1).filter Token.isSignificant =
      ((place number 0 (lexLine false line).1).filter Token.isSignificant).map
        (Token.relocate (.right bytes))) :
    List.Forall₂ (Draft.Indented fun k => if k = front.length + 1 then bytes else 0)
      (lineTokens false 1 (front ++ line' :: rest)) (lineTokens false 1 (front ++ line :: rest)) := by
  -- Neither line opens a block, so that the lines behind them are cut in the same way.
  have hnext {cs : List Char} (h : Keyless cs) : (lexLine false cs).2 = false := by
    rw [lexLine_of_keyless h]
  rw [lineTokens_append, lineTokens_append, hclosed, lineTokens, lineTokens, hnext hline,
    hnext hline', Nat.add_comm 1]
  refine List.rel_append (indented_self fun k hle hlt => if_neg ?_) (.cons ?_ ?_)
  · omega
  · refine ⟨front.length + 1, fun t => line_of_mem_place, ?_⟩
    dsimp only
    rw [if_pos rfl]
    exact hmoved _
  · apply indented_self
    intro k hle hlt
    exact if_neg (by omega)

end Lexer

/-! ### Lines within a text -/

namespace Text

/-- The text between the two others is a line of all of it. The carriage return in front of a
line feed may count as part of the line or not. -/
structure Encloses (front line back : List Char) : Prop where
  start : front = [] ∨ front.getLast? = some '\n'
  feed : '\n' ∉ line
  stop : back = [] ∨ ['\n'] <+: back ∨ ['\r', '\n'] <+: back

def afterFeed (cs : List Char) : List Char :=
  (cs.dropWhile (· ≠ '\n')).tail

theorem exists_encloses {cs line : List Char} {n : Nat} (h : (lines cs)[n]? = some line) :
    ∃ front back, Encloses front line back ∧ cs = front ++ line ++ back ∧ front.count '\n' = n := by
  induction cs using line_induction generalizing n with
  | last whole hfeed =>
    by_cases hnil : whole = []
    · rw [hnil] at h
      simp [lines] at h
    · rw [lines_of_no_feed hnil hfeed, List.getElem?_singleton] at h
      split at h
      next hn =>
        cases h
        exact ⟨[], [], ⟨.inl rfl, hfeed, .inl rfl⟩, by simp, by simp [hn]⟩
      next => cases h
  | feed first rest hfeed ih =>
    rw [lines_append_feed hfeed] at h
    cases n with
    | zero =>
      rw [List.getElem?_cons_zero, Option.some.injEq] at h
      subst h
      by_cases hlast : first.getLast? = some '\r'
      · have hfirst := List.dropLast_append_getLast? '\r' hlast
        refine ⟨[], '\r' :: '\n' :: rest, ⟨.inl rfl, ?_, .inr (.inr ⟨rest, rfl⟩)⟩, ?_, rfl⟩
        · rw [dropReturn, if_pos hlast]
          exact fun hmem => hfeed (List.mem_of_mem_dropLast hmem)
        · rw [dropReturn, if_pos hlast]
          conv_lhs => rw [← hfirst]
          simp
      · rw [dropReturn, if_neg hlast]
        exact ⟨[], '\n' :: rest, ⟨.inl rfl, hfeed, .inr (.inl ⟨rest, rfl⟩)⟩, rfl, rfl⟩
    | succ n =>
      rw [List.getElem?_cons_succ] at h
      obtain ⟨front, back, henclosed, rfl, hcount⟩ := ih h
      refine ⟨first ++ '\n' :: front, back, ⟨.inr ?_, henclosed.feed, henclosed.stop⟩, by simp, ?_⟩
      · rcases henclosed.start with rfl | hlast
        · simp
        · rw [List.getLast?_append_of_ne_nil _ (by simp), List.getLast?_cons_of_ne_nil, hlast]
          exact List.ne_nil_of_mem (List.mem_of_getLast? hlast)
      · rw [List.count_append, List.count_eq_zero_of_not_mem hfeed, List.count_cons_self, hcount,
          Nat.zero_add]

namespace Encloses

variable {front line back : List Char} (h : Encloses front line back)
include h

/-- An empty line at the very end of a text is none. Otherwise the line is read off the text, but
for a carriage return that a line feed takes along. -/
theorem lines_cases : line = [] ∧ back = [] ∨ ∃ first, trimEnd first = trimEnd line ∧
    lines (line ++ back) = first :: lines (afterFeed back) := by
  rcases h.stop with rfl | ⟨rest, rfl⟩ | ⟨rest, rfl⟩
  · by_cases hnil : line = []
    · exact .inl ⟨hnil, rfl⟩
    · refine .inr ⟨line, rfl, ?_⟩
      rw [List.append_nil, lines_of_no_feed hnil h.feed]
      rfl
  · exact .inr ⟨dropReturn line, trimEnd_dropReturn line, lines_append_feed h.feed rest⟩
  · exact .inr ⟨line, rfl, lines_append_return h.feed rest⟩

theorem kept_lines : kept ((lines (front ++ line ++ back)).map trimEnd) =
    kept ((lines front ++ line :: lines (afterFeed back)).map trimEnd) := by
  rw [List.append_assoc, lines_append_of_start h.start, List.map_append, List.map_append]
  rcases h.lines_cases with ⟨rfl, rfl⟩ | ⟨first, htrim, hlines⟩
  · change kept ((lines front).map trimEnd ++ []) = kept ((lines front).map trimEnd ++ [[]])
    rw [List.append_nil]
    exact (List.rdropWhile_concat_pos List.isEmpty _ [] rfl).symm
  · rw [hlines, List.map_cons, List.map_cons, htrim]

theorem closed_of_not_skipped
    (hread : ¬Skipped (lines (front ++ line ++ back)) (front.count '\n')) :
    Lexer.blockAfter false (lines front) = false ∧ Lexer.Keyless line := by
  rw [List.append_assoc, lines_append_of_start h.start, ← length_lines h.start] at hread
  constructor
  · rw [← Bool.not_eq_true, Lexer.blockAfter_iff_inside]
    rintro ⟨first, -, hopens, hreaches⟩
    exact hread (.inl ⟨first, hopens, hreaches⟩)
  · rcases h.lines_cases with ⟨rfl, rfl⟩ | ⟨first, htrim, hlines⟩
    · rw [Lexer.keyless_iff]
      decide
    · have hat : (lines front ++ lines (line ++ back))[(lines front).length]? = some first := by
        rw [hlines]
        simp
      have hword : firstWord line = firstWord first := by
        rw [← firstWord_trimEnd line, ← htrim, firstWord_trimEnd]
      rw [skipped_iff hat, not_or, not_or] at hread
      rw [Lexer.keyless_iff, StartsWith, StartsWith, hword]
      exact hread.2

end Encloses

def withReturns (source : String) : String :=
  String.ofList (source.toList.flatMap fun c => if c = '\n' then ['\r', '\n'] else [c])

theorem map_trimEnd_lines_withReturns (source : String) :
    (lines (withReturns source).toList).map trimEnd = (lines source.toList).map trimEnd := by
  have hplain {line : List Char} (h : '\n' ∉ line) :
      (line.flatMap fun c => if c = '\n' then ['\r', '\n'] else [c]) = line := by
    induction line with
    | nil => rfl
    | cons c line ih =>
      rw [List.mem_cons, not_or] at h
      rw [List.flatMap_cons, if_neg (Ne.symm h.1), ih h.2]
      rfl
  unfold withReturns
  rw [String.toList_ofList]
  induction source.toList using line_induction with
  | last line h => rw [hplain h]
  | feed line rest h ih =>
    rw [List.flatMap_append, hplain h, List.flatMap_cons, if_pos rfl, List.cons_append,
      List.singleton_append, lines_append_return h, lines_append_feed h, List.map_cons,
      List.map_cons, ih, trimEnd_dropReturn]

end Text

namespace Program

variable {front line back : String} (h : Encloses front.toList line.toList back.toList)
  (hread : ¬Skipped (Text.lines (front ++ line ++ back).toList) (front.toList.count '\n'))
include h hread

theorem parse_replace_line {line' : String} (hfeed : '\n' ∉ line'.toList) {bytes : Nat}
    (hline' : Lexer.Keyless line'.toList)
    (hmoved : ∀ number,
      (Lexer.place number 0 (Lexer.lexLine false line'.toList).1).filter Token.isSignificant =
        ((Lexer.place number 0 (Lexer.lexLine false line.toList).1).filter Token.isSignificant).map
          (Token.relocate (.right bytes))) :
    Program.parse (front ++ line' ++ back) = (Program.parse (front ++ line ++ back)).mapError
      (ParseError.indent fun k => if k = front.toList.count '\n' + 1 then bytes else 0) := by
  have hparse {cs : String} (hcs : Encloses front.toList cs.toList back.toList) :
      Program.parse (front ++ cs ++ back) =
        (Lexer.lineTokens false 1 (Text.lines front.toList ++
          cs.toList :: Text.lines (afterFeed back.toList))).foldlM Draft.addLine {} >>=
            Draft.finish := by
    apply parse_eq_of_lines
    rw [String.toList_append, String.toList_append]
    exact hcs.kept_lines
  rw [String.toList_append, String.toList_append] at hread
  obtain ⟨hclosed, hline⟩ := h.closed_of_not_skipped hread
  rw [hparse h, hparse ⟨h.start, hfeed, h.stop⟩, ← length_lines h.start]
  exact Draft.bind_finish_indented (Lexer.forall₂_indented hclosed hline hline' hmoved)

theorem keyless_of_not_skipped : Lexer.Keyless line.toList := by
  rw [String.toList_append, String.toList_append] at hread
  exact (h.closed_of_not_skipped hread).2

theorem parse_append_comment {text : String} (htext : '\n' ∉ text.toList) :
    Program.parse (front ++ (line ++ " --" ++ text) ++ back) =
      Program.parse (front ++ line ++ back) := by
  have hline := keyless_of_not_skipped h hread
  have hlonger : (line ++ " --" ++ text).toList =
      line.toList ++ ' ' :: '-' :: '-' :: text.toList := by simp
  have hfeed : '\n' ∉ (line ++ " --" ++ text).toList := by
    rw [hlonger]
    simp [h.feed, htext]
  have hkeyless : Lexer.Keyless (line ++ " --" ++ text).toList := by
    rw [hlonger]
    exact hline.append_comment text.toList
  have hcode : Text.trimEnd (Lexer.splitComment (line ++ " --" ++ text).toList).1 =
      Text.trimEnd (Lexer.splitComment line.toList).1 := by
    have hblank : ∀ c ∈ (Lexer.splitComment (' ' :: '-' :: '-' :: text.toList)).1,
        Text.isBlank c = true := by
      change ∀ c ∈ [' '], Text.isBlank c = true
      rw [List.forall_mem_singleton]
      rfl
    rw [hlonger]
    exact Lexer.trimEnd_splitComment_append line.toList (by simp) hblank
  have hmoved (number : Nat) :
      (Lexer.place number 0 (Lexer.lexLine false (line ++ " --" ++ text).toList).1).filter
          Token.isSignificant =
        ((Lexer.place number 0 (Lexer.lexLine false line.toList).1).filter Token.isSignificant).map
          (Token.relocate (.right 0)) := by
    rw [Lexer.filter_place_of_keyless hkeyless, Lexer.filter_place_of_keyless hline,
      Lexer.filter_place_lexCode, hcode, ← Lexer.filter_place_lexCode]
    exact (List.map_id _).symm
  have hparse := parse_replace_line h hread hfeed hkeyless hmoved
  simp only [ite_self] at hparse
  rw [hparse, ParseError.indent_zero, mapError_id]

theorem parse_blanks_append {pad : String} (hpad : ∀ c ∈ pad.toList, c = ' ' ∨ c = '\t') :
    Program.parse (front ++ (pad ++ line) ++ back) =
      (Program.parse (front ++ line ++ back)).mapError
        (ParseError.indent fun k => if k = front.toList.count '\n' + 1 then pad.length else 0) := by
  have hline := keyless_of_not_skipped h hread
  have hblank : ∀ c ∈ pad.toList, Text.isBlank c = true := by
    intro c hc
    rcases hpad c hc with rfl | rfl <;> decide
  have hbytes : Text.byteLength pad.toList = pad.length := by
    rw [← String.length_toList]
    apply Text.byteLength_eq_length
    intro c hc
    rcases hpad c hc with rfl | rfl <;> rfl
  have hkeyless : Lexer.Keyless (pad ++ line).toList := by
    rw [String.toList_append]
    exact hline.blanks_append hblank
  refine parse_replace_line h hread ?_ hkeyless fun number => ?_
  · rw [String.toList_append, List.mem_append, not_or]
    refine ⟨fun hfeed => ?_, h.feed⟩
    rcases hpad _ hfeed with hc | hc <;> cases hc
  · rw [Lexer.filter_place_of_keyless hkeyless, Lexer.filter_place_of_keyless hline,
      String.toList_append, Lexer.splitComment_blanks_append hblank,
      Lexer.filter_place_blanks_append number hblank, hbytes]

omit h hread

/-- Layout does not matter. Every line of a text stands between a front and a back. If it is
not skipped, then a comment behind it changes nothing, and spaces and tabs in front of it only
move the spans of complaints about that line. Nor does it matter whether all line feeds get a
carriage return. -/
theorem parse_layout :
    (∀ (source : String) (n : Nat) (line : List Char),
      (Text.lines source.toList)[n]? = some line → ∃ front back : String,
        Encloses front.toList line back.toList ∧ source = front ++ String.ofList line ++ back ∧
          front.toList.count '\n' = n) ∧
    (∀ front line back : String, Encloses front.toList line.toList back.toList →
      ¬Skipped (Text.lines (front ++ line ++ back).toList) (front.toList.count '\n') →
      (∀ text : String, '\n' ∉ text.toList →
        Program.parse (front ++ (line ++ " --" ++ text) ++ back) =
          Program.parse (front ++ line ++ back)) ∧
      ∀ pad : String, (∀ c ∈ pad.toList, c = ' ' ∨ c = '\t') →
        Program.parse (front ++ (pad ++ line) ++ back) =
          (Program.parse (front ++ line ++ back)).mapError (ParseError.indent fun number =>
            if number = front.toList.count '\n' + 1 then pad.length else 0)) ∧
    ∀ source : String, Program.parse (withReturns source) = Program.parse source := by
  refine ⟨fun source n line hline => ?_, fun front line back h hread => ?_, fun source => ?_⟩
  · obtain ⟨front, back, henclosed, hsource, hcount⟩ := exists_encloses hline
    refine ⟨String.ofList front, String.ofList back, ?_, ?_, ?_⟩
    · simpa using henclosed
    · rw [← String.toList_inj, hsource]
      simp
    · simpa using hcount
  · exact ⟨fun _ => parse_append_comment h hread, fun _ => parse_blanks_append h hread⟩
  · apply parse_congr
    rw [map_trimEnd_lines_withReturns]

theorem parse_layout_bracket :
    let e : ParseError := ⟨2, some ⟨7, 9⟩, .malformedIndirect "[ x"⟩
    Program.parse ("a:\n" ++ ("copyto [x" ++ " --" ++ "]\r") ++ "\r\njump b") = .error e ∧
      Program.parse ("a:\n" ++ (" \t" ++ "copyto [x") ++ "\r\njump b") =
        .error { e with span := some ⟨9, 11⟩ } ∧
      Program.parse (withReturns ("a:\n" ++ "copyto [x" ++ "\r\njump b")) = .error e := by
  intro e
  have hparse : Program.parse ("a:\n" ++ "copyto [x" ++ "\r\njump b") = .error e := by decide +kernel
  have henclosed : Encloses "a:\n".toList "copyto [x".toList "\r\njump b".toList :=
    ⟨by decide, by decide, by decide⟩
  have hread : ¬Skipped (Text.lines ("a:\n" ++ "copyto [x" ++ "\r\njump b").toList)
      ("a:\n".toList.count '\n') := by
    have hlines : Text.lines ("a:\n" ++ "copyto [x" ++ "\r\njump b").toList =
        ["a:".toList] ++ ["copyto [x".toList, "jump b".toList] := by decide
    have hcount : "a:\n".toList.count '\n' = ["a:".toList].length := by decide
    have hline : (["a:".toList] ++ ["copyto [x".toList, "jump b".toList])[["a:".toList].length]? =
        some "copyto [x".toList := rfl
    rw [hlines, hcount, skipped_iff hline, ← Lexer.blockAfter_iff_inside]
    decide
  have hpad : ∀ c ∈ " \t".toList, c = ' ' ∨ c = '\t' := by simp
  obtain ⟨hcomment, hindent⟩ := parse_layout.2.1 _ _ _ henclosed hread
  rw [hcomment "]\r" (by decide), hindent " \t" hpad, parse_layout.2.2, hparse]
  exact ⟨rfl, rfl, rfl⟩

end Program

end TileMachine
