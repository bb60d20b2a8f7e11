import TileMachine.Proofs.Source.Lossless
import TileMachine.Proofs.Source.Reading

/-! Blanks at the end of a line say nothing, nor do empty lines at the end of a text. So
what the tokens of a text are written out to is read as the text itself: as the same
program, or with the same complaint. -/
namespace TileMachine
open Text

namespace Lexer

/-! ### Blanks at the end of a line -/

theorem sameRun_of_blank {a b : Char} (ha : isBlank a = false) (hb : isBlank b = true) :
    sameRun a b = false := by
  rw [← Bool.not_eq_true, sameRun_iff, CharClass.of_blank hb]
  intro h
  have hclass := h.1
  unfold CharClass.of at hclass
  simp only [ha, Bool.false_eq_true, if_false] at hclass
  split at hclass <;> contradiction

theorem runs_of_blanks {cs : List Char} (h : ∀ c ∈ cs, isBlank c = true) :
    (cs.splitBy sameRun).map lexRun = lexeme .blank cs := by
  by_cases hnil : cs = []
  · rw [hnil]
    rfl
  · have hrun : cs.IsChain fun a b => sameRun a b = true :=
      isChain_of_class (by decide) fun c hc => CharClass.of_blank (h c hc)
    rw [List.splitBy_of_isChain hnil hrun, List.map_singleton, lexRun_eq,
      if_pos (List.all_eq_true.2 h), lexeme, if_neg (by simpa using hnil)]

theorem runs_eq (code : List Char) : (code.splitBy sameRun).map lexRun =
    ((trimEnd code).splitBy sameRun).map lexRun ++ lexeme .blank (trailing code) := by
  have hblank : ∀ c ∈ trailing code, isBlank c = true := fun c => isBlank_of_mem_trailing
  have hapart : ∀ a ∈ (trimEnd code).getLast?, ∀ b ∈ (trailing code).head?,
      sameRun a b = false := fun a ha b hb =>
    sameRun_of_blank (getLast?_trimEnd_not_blank ha) (hblank b (List.mem_of_head? hb))
  conv_lhs => rw [← trimEnd_append_trailing code, List.splitBy_append hapart, List.map_append,
    runs_of_blanks hblank]

theorem lexCode_eq (code : List Char) :
    lexCode code = lexCode (trimEnd code) ++ lexeme .blank (trailing code) := by
  unfold lexCode
  rw [trimEnd_trimEnd]
  split
  next hcolon =>
    have hne : trimEnd code ≠ [] := List.ne_nil_of_mem (List.mem_of_getLast? hcolon)
    have hleading : leading (trimEnd code) ++ trim code = leading code ++ trim code := by
      rw [leading_append_trim hne, ← trim_trimEnd code, leading_append_trim, trimEnd_trimEnd]
      rwa [trimEnd_trimEnd]
    rw [List.append_cancel_right hleading, trim_trimEnd, trailing_trimEnd]
    simp [lexeme]
  next => exact runs_eq code

theorem splitComment_cons {c : Char} {cs : List Char} (h : c = '-' → cs.head? ≠ some '-') :
    splitComment (c :: cs) = (c :: (splitComment cs).1, (splitComment cs).2) := by
  apply splitComment.eq_3
  intro rest hc hcs
  rw [hcs] at h
  exact h hc rfl

theorem splitComment_blanks_append {front : List Char} (h : ∀ c ∈ front, isBlank c = true)
    (line : List Char) :
    splitComment (front ++ line) = (front ++ (splitComment line).1, (splitComment line).2) := by
  induction front with
  | nil => rfl
  | cons c front ih =>
    rw [List.forall_mem_cons] at h
    have hc : c ≠ '-' := by
      intro hc
      rw [hc] at h
      exact absurd h.1 (by decide)
    rw [List.cons_append, splitComment_cons fun hdash => absurd hdash hc, ih h.2]
    rfl

/-- What follows a line belongs to its comment. If it has no comment, then blanks that follow
belong to its code. -/
theorem splitComment_append_blanks (line : List Char) {back : List Char}
    (hhead : back.head? ≠ some '-') (hback : ∀ c ∈ (splitComment back).1, isBlank c = true) :
    ∃ more, (∀ c ∈ more, isBlank c = true) ∧
      (splitComment (line ++ back)).1 = (splitComment line).1 ++ more := by
  fun_induction splitComment line with
  | case1 => exact ⟨(splitComment back).1, hback, rfl⟩
  | case2 cs => exact ⟨[], by simp, rfl⟩
  | case3 c cs hopen code comment hsplit ih =>
    obtain ⟨more, hmore, hcode⟩ := ih
    rw [hsplit] at hcode
    have hnext : c = '-' → (cs ++ back).head? ≠ some '-' := by
      intro hc hdash
      cases cs with
      | nil => exact hhead hdash
      | cons d cs =>
        have hd : d = '-' := by simpa using hdash
        exact hopen cs hc (by rw [hd])
    rw [List.cons_append, splitComment_cons hnext, hcode]
    exact ⟨more, hmore, rfl⟩

theorem trimEnd_splitComment_append (line : List Char) {back : List Char}
    (hhead : back.head? ≠ some '-') (hback : ∀ c ∈ (splitComment back).1, isBlank c = true) :
    trimEnd (splitComment (line ++ back)).1 = trimEnd (splitComment line).1 := by
  obtain ⟨more, hmore, hcode⟩ := splitComment_append_blanks line hhead hback
  rw [hcode, trimEnd_append, trimEnd_eq_nil hmore]
  rfl

theorem trimEnd_splitComment (line : List Char) :
    trimEnd (splitComment (trimEnd line)).1 = trimEnd (splitComment line).1 := by
  have hblank : ∀ c ∈ trailing line, isBlank c = true := fun c => isBlank_of_mem_trailing
  have hcode : splitComment (trailing line) = (trailing line, []) := by
    have happend := splitComment_blanks_append hblank []
    simpa [splitComment] using happend
  have hhead : (trailing line).head? ≠ some '-' := by
    intro hdash
    exact absurd (hblank '-' (List.mem_of_head? hdash)) (by decide)
  have happend := trimEnd_splitComment_append (trimEnd line) hhead (by rwa [hcode])
  rw [trimEnd_append_trailing] at happend
  exact happend.symm

theorem startsWithKeyword_trimEnd (keyword : String) (line : List Char) :
    startsWithKeyword keyword (trimEnd line) = startsWithKeyword keyword line := by
  unfold startsWithKeyword
  rw [firstWord_trimEnd]

theorem endsWithSemicolon_trimEnd (line : List Char) :
    endsWithSemicolon (trimEnd line) = endsWithSemicolon line := by
  unfold endsWithSemicolon
  rw [trimEnd_trimEnd]

theorem lexLine_snd_trimEnd (inBlock : Bool) (line : List Char) :
    (lexLine inBlock (trimEnd line)).2 = (lexLine inBlock line).2 := by
  unfold lexLine
  rw [startsWithKeyword_trimEnd, startsWithKeyword_trimEnd, endsWithSemicolon_trimEnd,
    trim_trimEnd]
  split
  next => rfl
  split
  next => rfl
  split <;> rfl

theorem filter_place_of_none {lexemes : List Lexeme}
    (h : lexemes.filter Lexeme.isSignificant = []) (number start : Nat) :
    (place number start lexemes).filter Token.isSignificant = [] := by
  rw [← List.map_eq_nil_iff, map_lexeme_filter_place, h]

theorem filter_place_append {as bs : List Lexeme} (h : bs.filter Lexeme.isSignificant = [])
    (number start : Nat) : (place number start (as ++ bs)).filter Token.isSignificant =
      (place number start as).filter Token.isSignificant := by
  rw [place_append, List.filter_append, filter_place_of_none h, List.append_nil]

theorem filter_place_lexCode (number start : Nat) (code : List Char) :
    (place number start (lexCode code)).filter Token.isSignificant =
      (place number start (lexCode (trimEnd code))).filter Token.isSignificant := by
  rw [lexCode_eq, filter_place_append (filter_lexeme_blank _)]

theorem filter_place_lexLine (number : Nat) (inBlock : Bool) (line : List Char) :
    (place number 0 (lexLine inBlock (trimEnd line)).1).filter Token.isSignificant =
      (place number 0 (lexLine inBlock line).1).filter Token.isSignificant := by
  have hcomment (text : List Char) :
      (place number 0 (lexeme .comment text)).filter Token.isSignificant = [] :=
    filter_place_of_none (filter_lexeme_comment text) number 0
  unfold lexLine
  rw [startsWithKeyword_trimEnd, startsWithKeyword_trimEnd]
  split
  next => rw [hcomment, hcomment]
  split
  next => rw [hcomment, hcomment]
  split
  next => rw [hcomment, hcomment]
  next =>
    dsimp only
    rw [filter_place_append (filter_lexeme_comment _),
      filter_place_append (filter_lexeme_comment _), filter_place_lexCode, trimEnd_splitComment,
      ← filter_place_lexCode]

end Lexer

/-! ### What is read -/

namespace Draft

theorem addLine_filter (d : Draft) (tokens : List Token) :
    d.addLine (tokens.filter Token.isSignificant) = d.addLine tokens := by
  unfold addLine Statement.ofTokens
  rw [List.filter_filter]
  simp only [Bool.and_self]

theorem foldlM_map_trimEnd (d : Draft) (inBlock : Bool) (first : Nat) (ls : List (List Char)) :
    (Lexer.lineTokens inBlock first (ls.map trimEnd)).foldlM addLine d =
      (Lexer.lineTokens inBlock first ls).foldlM addLine d := by
  induction ls generalizing d inBlock first with
  | nil => rfl
  | cons line ls ih =>
    rw [List.map_cons, Lexer.lineTokens, Lexer.lineTokens, List.foldlM_cons, List.foldlM_cons,
      ← addLine_filter, Lexer.filter_place_lexLine, addLine_filter, Lexer.lexLine_snd_trimEnd]
    apply congrArg
    funext d'
    exact ih d' _ _

theorem foldlM_kept (d : Draft) (inBlock : Bool) (first : Nat) (ls : List (List Char)) :
    (Lexer.lineTokens inBlock first (kept ls)).foldlM addLine d =
      (Lexer.lineTokens inBlock first ls).foldlM addLine d := by
  induction ls generalizing d inBlock first with
  | nil => rfl
  | cons line ls ih =>
    rw [kept_cons]
    split
    next h =>
      have hrest := ih d (Lexer.lexLine inBlock line).2 (first + 1)
      rw [h.1] at hrest
      have hempty := (Lexer.spells_lexLine inBlock line).eq_nil_iff.2 h.2
      conv_rhs => rw [Lexer.lineTokens, hempty, List.foldlM_cons]
      exact hrest
    next =>
      rw [Lexer.lineTokens, Lexer.lineTokens, List.foldlM_cons, List.foldlM_cons]
      apply congrArg
      funext d'
      exact ih d' _ _

end Draft

theorem Text.trimEnd_dropReturn (line : List Char) : trimEnd (dropReturn line) = trimEnd line := by
  unfold dropReturn
  split
  next hlast =>
    have hreturn : trimEnd ['\r'] = [] := by decide
    rw [← List.dropLast_append_getLast? '\r' hlast, List.dropLast_concat, trimEnd_append, hreturn]
    rfl
  next => rfl

theorem Text.kept_lines_append_feed (cs : List Char) :
    kept ((lines (cs ++ ['\n'])).map trimEnd) = kept ((lines cs).map trimEnd) := by
  induction cs using line_induction with
  | last line h =>
    by_cases hne : line = []
    · rw [hne]
      rfl
    · rw [lines_append_feed h, lines_of_no_feed hne h]
      simp [lines, trimEnd_dropReturn]
  | feed line rest h ih =>
    rw [List.append_assoc, List.cons_append, lines_append_feed h, lines_append_feed h,
      List.map_cons, List.map_cons, kept_cons, kept_cons, ih]

/-- Blanks at the ends of lines, and empty lines behind the last, make no difference. -/
theorem Program.parse_eq_of_lines {source : String} {ls : List (List Char)}
    (h : kept ((Text.lines source.toList).map trimEnd) = kept (ls.map trimEnd)) :
    Program.parse source =
      (Lexer.lineTokens false 1 ls).foldlM Draft.addLine {} >>= Draft.finish := by
  rw [Program.parse_eq, ← Draft.foldlM_map_trimEnd, ← Draft.foldlM_kept, h, Draft.foldlM_kept,
    Draft.foldlM_map_trimEnd]

theorem Program.parse_congr {a b : String}
    (h : kept ((Text.lines a.toList).map trimEnd) = kept ((Text.lines b.toList).map trimEnd)) :
    Program.parse a = Program.parse b := by
  rw [Program.parse_eq_of_lines h, Program.parse_eq]

theorem Lexer.lines_render_lexLines {ls : List (List Char)} (h : ∀ line ∈ ls, '\n' ∉ line) :
    lines (Token.render (Lexer.lexLines false 1 ls)).toList = (kept ls).map dropReturn := by
  rw [Lexer.render_lexLines, lines_unlines_of_no_feed]
  · simp
  · intro line hline
    have ⟨chars, hchars, heq⟩ := List.mem_map.1 hline
    rw [← heq, String.toList_ofList]
    exact h chars (mem_of_mem_kept hchars)

theorem Lexer.lines_render_tokenize (source : String) :
    lines (Token.render (Lexer.tokenize source)).toList =
      (kept (lines source.toList)).map dropReturn :=
  Lexer.lines_render_lexLines fun _ => feed_not_mem_of_mem_lines

/-- A text and what its tokens are written out to are read alike, also where they differ. -/
theorem Program.parse_render_tokenize (source : String) :
    Program.parse (Token.render (Lexer.tokenize source)) = Program.parse source := by
  have htrim : trimEnd ∘ dropReturn = trimEnd := funext trimEnd_dropReturn
  rw [Program.parse_eq, Lexer.lines_render_tokenize, ← Draft.foldlM_map_trimEnd, List.map_map,
    htrim, Draft.foldlM_map_trimEnd, Draft.foldlM_kept, ← Program.parse_eq]

example : Token.render (Lexer.tokenize "a:\r\r\n inbox\r\n\n") = "a:\r\n inbox\n" := by
  decide +kernel

end TileMachine
