import TileMachine.Proofs.Source.Rendering
import TileMachine.Proofs.Text.Letters

/-! Another text in place of one token of a line. If it is a word that starts no comment,
declares nothing and is no keyword, or the declaration of a word, the line is cut at the
same places as before. -/
namespace TileMachine
open Text Grammar

namespace Lexer

/-! ### Keywords -/

theorem startsWithKeyword_replace {keyword : String} {front w w' rest : List Char}
    (h : startsWithKeyword keyword (front ++ w ++ rest) = false)
    (hfront : ∀ c, front.getLast? = some c → c.toLower ∉ keyword.toList)
    (hrest : ∀ c, rest.head? = some c → c.toLower ∉ keyword.toList)
    (hne : w' ≠ []) (hw' : ∀ c ∈ w', isBlank c = false)
    (hkeyword : w'.map Char.toLower ≠ keyword.toList) :
    startsWithKeyword keyword (front ++ w' ++ rest) = false := by
  rw [List.append_assoc] at h ⊢
  -- Only with nothing but blanks in front of it can the new word open the line.
  by_cases hblank : trimStart front = []
  · have hall : ∀ c ∈ front, isBlank c = true := List.dropWhile_eq_nil_iff.1 hblank
    have hfirst : firstWord (front ++ (w' ++ rest)) = w' ++ rest.takeWhile (!isBlank ·) := by
      rw [firstWord_blanks_append hall, firstWord_append_of_no_blank hne hw']
    cases hmore : rest.takeWhile (!isBlank ·) with
    | nil =>
      rw [hmore, List.append_nil] at hfirst
      unfold startsWithKeyword
      rw [hfirst, beq_eq_false_iff_ne]
      exact hkeyword
    | cons c cs =>
      have hhead : rest.head? = some c := by
        cases rest with
        | nil => contradiction
        | cons d rest =>
          rw [List.takeWhile_cons] at hmore
          split at hmore
          · cases hmore
            rfl
          · contradiction
      apply startsWithKeyword_eq_false (c := c) _ (hrest c hhead)
      rw [hfirst, hmore]
      simp
  · rcases firstWord_append_cases hblank with hsame | hmem
    · unfold startsWithKeyword at h ⊢
      rwa [hsame] at h ⊢
    · have hlast : (trimStart front).getLast? = front.getLast? := by
        conv_rhs => rw [← leading_append_trimStart front]
        exact (List.getLast?_append_of_ne_nil _ hblank).symm
      have hc := List.getLast?_eq_some_getLast hblank
      exact startsWithKeyword_eq_false (hmem _ _ (List.mem_of_getLast? hc))
        (hfront _ (hlast ▸ hc))

/-! ### Comments -/

def Apart (a b : Char) : Prop :=
  ¬(a = '-' ∧ b = '-')

theorem isChain_apart {cs : List Char} (h : ¬['-', '-'] <:+: cs) : cs.IsChain Apart := by
  induction cs with
  | nil => exact .nil
  | cons a cs ih =>
    rw [List.isChain_cons]
    refine ⟨fun b hb hboth => ?_, ih fun hcs => h (hcs.trans (List.suffix_cons a cs).isInfix)⟩
    obtain ⟨rest, rfl⟩ := List.head?_eq_some_iff.1 hb
    rw [hboth.1, hboth.2] at h
    exact h ⟨[], rest, rfl⟩

/-- The cut in front of the first two hyphens, said of neighbours. -/
structure Cuts (code comment : List Char) : Prop where
  opens : comment = [] ∨ ['-', '-'] <+: comment
  apart : (code ++ comment.take 1).IsChain Apart

theorem head?_append_take (code comment : List Char) :
    (code ++ comment.take 1).head? = (code ++ comment).head? := by
  cases code <;> cases comment <;> rfl

theorem cuts_splitComment (line : List Char) :
    Cuts (splitComment line).1 (splitComment line).2 := by
  fun_induction splitComment line with
  | case1 => exact ⟨.inl rfl, .nil⟩
  | case2 cs => exact ⟨.inr ⟨cs, rfl⟩, .singleton _⟩
  | case3 c cs hopen code comment hsplit ih =>
    have hcs : code ++ comment = cs := by
      have happend := splitComment_append cs
      rwa [hsplit] at happend
    rw [hsplit] at ih
    refine ⟨ih.opens, ?_⟩
    rw [List.cons_append, List.isChain_cons]
    refine ⟨fun d hd hboth => ?_, ih.apart⟩
    rw [head?_append_take, hcs, hboth.2] at hd
    obtain ⟨rest, hrest⟩ := List.head?_eq_some_iff.1 hd
    exact hopen rest hboth.1 hrest

theorem Cuts.splitComment {code comment : List Char} (h : Cuts code comment) :
    splitComment (code ++ comment) = (code, comment) := by
  induction code with
  | nil =>
    rcases h.opens with rfl | ⟨rest, rfl⟩ <;> rfl
  | cons c code ih =>
    have hapart := h.apart
    rw [List.cons_append, List.isChain_cons] at hapart
    rw [List.cons_append, splitComment_cons, ih ⟨h.opens, hapart.2⟩]
    intro hc hhead
    rw [← head?_append_take] at hhead
    exact hapart.1 '-' hhead ⟨hc, rfl⟩

theorem Cuts.replace {front w w' back comment : List Char} (h : Cuts (front ++ w ++ back) comment)
    (hfront : front.getLast? ≠ some '-') (hw' : w'.IsChain Apart)
    (hlast : w'.getLast? ≠ some '-') : Cuts (front ++ w' ++ back) comment := by
  refine ⟨h.opens, ?_⟩
  have hapart := h.apart
  rw [List.append_assoc, List.append_assoc, List.isChain_append] at hapart ⊢
  refine ⟨hapart.1, ?_, fun a ha b _ hboth => hfront (hboth.1 ▸ ha)⟩
  rw [List.isChain_append]
  exact ⟨hw', (List.isChain_append.1 hapart.2.1).2.1,
    fun a ha b _ hboth => hlast (hboth.1 ▸ ha)⟩

/-! ### Runs -/

theorem sameRun_of_inWord {a b : Char} (ha : InWord a) (hb : InWord b) : sameRun a b = true := by
  rw [sameRun_iff, CharClass.of_eq_word_iff.2 ha, CharClass.of_eq_word_iff.2 hb]
  decide

/-- A word among the runs of a code, with the texts on both sides of it. -/
structure Between (code w : List Char) (before after : List (List Char)) : Prop where
  text : code = before.flatten ++ w ++ after.flatten
  front : before.flatten.splitBy sameRun = before
  back : after.flatten.splitBy sameRun = after
  last : ∀ c, before.flatten.getLast? = some c → ¬InWord c
  head : ∀ c, after.flatten.head? = some c → ¬InWord c

theorem between_of_splitBy {code w : List Char} {before after : List (List Char)}
    (h : code.splitBy sameRun = before ++ w :: after) (hw : IsWord w) :
    Between code w before after := by
  obtain ⟨hcode, hne, hruns, hneighbours⟩ := List.splitBy_eq_iff.1 h
  rw [List.isChain_append, List.isChain_cons] at hneighbours
  obtain ⟨hbefore, ⟨hnext, hafter⟩, hlast⟩ := hneighbours
  rw [List.mem_append, List.mem_cons, not_or, not_or] at hne
  rw [List.forall_mem_append, List.forall_mem_cons] at hruns
  refine ⟨by simpa using hcode, List.splitBy_flatten hne.1 hruns.1 hbefore,
    List.splitBy_flatten hne.2.2 hruns.2.2 hafter, fun c hc hword => ?_, fun c hc hword => ?_⟩
  · cases before using List.reverseRecOn with
    | nil => contradiction
    | append_singleton front run =>
      obtain ⟨hrun, hnil, hapart⟩ := hlast run (by simp) w rfl
      have hend : run.getLast hrun = c := by
        rw [List.flatten_append, List.flatten_singleton,
          List.getLast?_append_of_ne_nil _ hrun, List.getLast?_eq_some_getLast hrun] at hc
        exact Option.some.inj hc
      rw [hend, sameRun_of_inWord hword (hw.2 _ (List.head_mem hnil))] at hapart
      contradiction
  · cases after with
    | nil => contradiction
    | cons run rest =>
      obtain ⟨hnil, hrun, hapart⟩ := hnext run rfl
      have hstart : run.head hrun = c := by
        rw [List.flatten_cons, List.head?_append_of_ne_nil _ hrun,
          List.head?_eq_some_head hrun] at hc
        exact Option.some.inj hc
      rw [hstart, sameRun_of_inWord (hw.2 _ (List.getLast_mem hnil)) hword] at hapart
      contradiction

theorem Between.splitBy {code w w' : List Char} {before after : List (List Char)}
    (h : Between code w before after) (hw' : IsWord w') :
    (before.flatten ++ w' ++ after.flatten).splitBy sameRun = before ++ w' :: after := by
  have happart (c : Char) (hc : ¬InWord c) (d : Char) (hd : InWord d) :
      sameRun c d = false ∧ sameRun d c = false := by
    simp only [← Bool.not_eq_true, sameRun_iff, CharClass.of_eq_word_iff.2 hd]
    refine ⟨fun hsame => ?_, fun hsame => ?_⟩
    · exact hc (CharClass.of_eq_word_iff.1 hsame.1)
    · exact hc (CharClass.of_eq_word_iff.1 hsame.1.symm)
  have hrun : w'.splitBy sameRun = [w'] := by
    apply List.splitBy_of_isChain hw'.1
    exact isChain_of_class (k := .word) (by decide) fun c hc =>
      CharClass.of_eq_word_iff.2 (hw'.2 c hc)
  rw [List.append_assoc, List.splitBy_append, List.splitBy_append, h.front, h.back, hrun]
  · rfl
  · intro d hd c hc
    exact (happart c (h.head c hc) d (hw'.2 d (List.mem_of_getLast? hd))).2
  · intro c hc d hd
    rw [List.head?_append_of_ne_nil _ hw'.1] at hd
    exact (happart c (h.last c hc) d (hw'.2 d (List.mem_of_head? hd))).1

/-! ### Lines -/

/-- A word that may take the place of another: neither alone nor with a comment behind it
does it start a comment, and it declares no label and skips no line. -/
structure PlainWord (text : List Char) : Prop where
  word : IsWord text
  hyphens : ¬['-', '-'] <:+: text
  hyphen : text.getLast? ≠ some '-'
  colon : text.getLast? ≠ some ':'
  keyword : ∀ keyword ∈ ["define", "comment"], text.map Char.toLower ≠ keyword.toList

theorem PlainWord.not_blank {text : List Char} (h : PlainWord text) :
    ∀ c ∈ text, isBlank c = false :=
  fun c hc => (h.word.2 c hc).1

structure PlainLabel (text : List Char) : Prop where
  colon : text.getLast? = some ':'
  word : IsWord text.dropLast
  hyphens : ¬['-', '-'] <:+: text.dropLast

theorem lexLine_of_cuts {code comment : List Char} (h : Cuts code comment)
    (hline : Keyless (code ++ comment)) :
    lexLine false (code ++ comment) = (lexCode code ++ lexeme .comment comment, false) := by
  rw [lexLine_of_keyless hline, h.splitComment]

/-- Keywords are made up of letters: they hold no blank, no bracket, no hyphen and no
colon. -/
theorem toLower_not_mem_keyword {keyword : String} (hkeyword : keyword ∈ ["define", "comment"])
    {c : Char} (h : InWord c → c = '-' ∨ c = ':') : c.toLower ∉ keyword.toList := by
  intro hmem
  have halpha : c.isAlpha = true := by
    have hall : ∀ keyword ∈ ["define", "comment"], keyword.toList.all Char.isLower = true := by
      decide
    exact isAlpha_of_isLower_toLower (List.all_eq_true.1 (hall keyword hkeyword) _ hmem)
  have hother {d : Char} (hd : d.isAlpha = false) : c ≠ d := by
    rintro rfl
    rw [hd] at halpha
    contradiction
  have hword : InWord c ∧ c ≠ '-' ∧ c ≠ ':' :=
    ⟨⟨isBlank_of_isAlpha halpha, hother (by decide), hother (by decide)⟩, hother (by decide),
      hother (by decide)⟩
  rcases h hword.1 with hc | hc
  · exact hword.2.1 hc
  · exact hword.2.2 hc

theorem isWord_of_mem_splits {cs w : List Char} {ws : List (List Char)} (h : Splits cs ws)
    (hw : w ∈ ws) : w = ['['] ∨ w = [']'] ∨ IsWord w := by
  induction h with
  | nil => contradiction
  | blank _ _ ih => exact ih hw
  | @bracket c _ _ hc _ ih =>
    rcases List.mem_cons.1 hw with rfl | hw
    · rcases hc with rfl | rfl
      · exact .inl rfl
      · exact .inr (.inl rfl)
    · exact ih hw
  | word hword _ _ ih =>
    rcases List.mem_cons.1 hw with rfl | hw
    · exact .inr (.inr hword)
    · exact ih hw

theorem isWord_of_run {code run : List Char} (hrun : run ∈ code.splitBy sameRun)
    (hkind : (lexRun run).kind = .word ∨ (lexRun run).kind = .integer) : IsWord run := by
  have hblank : ¬run.all isBlank = true := by
    intro hblank
    rw [lexRun_eq, if_pos hblank] at hkind
    simp at hkind
  have hmem : run ∈ words code := List.mem_filter.2 ⟨hrun, by simpa using hblank⟩
  rcases isWord_of_mem_splits (splits_words code) hmem with rfl | rfl | hword
  · exact absurd hkind (by decide)
  · exact absurd hkind (by decide)
  · exact hword

theorem flatMap_text_lexRun (runs : List (List Char)) :
    (runs.map lexRun).flatMap Lexeme.text = runs.flatten := by
  rw [List.flatMap_map]
  exact List.flatMap_id

theorem kind_of_mem_lexeme {kind : TokenKind} {text : List Char} {l : Lexeme}
    (h : l ∈ lexeme kind text) : l.kind = kind := by
  unfold lexeme at h
  split at h
  next => contradiction
  next => rw [List.mem_singleton.1 h]

theorem not_colon_of_mem_lexCode {code : List Char} {l : Lexeme} (h : l ∈ lexCode code)
    (hkind : l.kind = .word ∨ l.kind = .integer) : (trimEnd code).getLast? ≠ some ':' := by
  intro hcolon
  rw [lexCode, if_pos hcolon, List.mem_append, List.mem_append] at h
  rcases h with (h | h) | h
  all_goals
    rw [kind_of_mem_lexeme h] at hkind
    simp at hkind

theorem head?_append_comment {back comment : List Char} (h : comment = [] ∨ ['-', '-'] <+: comment)
    (hback : ∀ c, back.head? = some c → ¬InWord c) {c : Char}
    (hc : (back ++ comment).head? = some c) : InWord c → c = '-' ∨ c = ':' := by
  cases back with
  | nil =>
    rcases h with rfl | ⟨rest, rfl⟩
    · cases hc
    · cases hc
      exact fun _ => .inl rfl
  | cons d back => exact fun hword => absurd hword (hback c hc)

theorem lexLine_replace_word {code comment text : List Char} {before after : List Lexeme}
    {l : Lexeme} (hcuts : Cuts code comment) (hline : Keyless (code ++ comment))
    (h : lexCode code = before ++ l :: after) (hkind : l.kind = .word ∨ l.kind = .integer)
    (htext : PlainWord text) :
    lexLine false (before.flatMap Lexeme.text ++ text ++ after.flatMap Lexeme.text ++ comment) =
      (before ++ ofWord text :: after ++ lexeme .comment comment, false) := by
  have hl : l ∈ lexCode code := by
    rw [h]
    simp
  have hcolon := not_colon_of_mem_lexCode hl hkind
  rw [lexCode, if_neg hcolon, List.map_eq_append_iff] at h
  obtain ⟨runs, others, hruns, rfl, hothers⟩ := h
  obtain ⟨run, rest, rfl, rfl, rfl⟩ := List.map_eq_cons_iff.1 hothers
  have hmem : run ∈ code.splitBy sameRun := by
    rw [hruns]
    simp
  have hrun : IsWord run := isWord_of_run hmem hkind
  have hbetween := between_of_splitBy hruns hrun
  rw [hbetween.text] at hcuts hline hcolon
  have hcuts' : Cuts (runs.flatten ++ text ++ rest.flatten) comment := by
    refine hcuts.replace (fun hlast => ?_) (isChain_apart htext.hyphens) htext.hyphen
    exact hbetween.last '-' hlast ⟨by decide, by decide, by decide⟩
  have hline' : Keyless (runs.flatten ++ text ++ rest.flatten ++ comment) := by
    intro keyword hkeyword
    have hold := hline keyword hkeyword
    rw [List.append_assoc] at hold ⊢
    refine startsWithKeyword_replace hold (fun c hc => ?_) (fun c hc => ?_) htext.word.1
      htext.not_blank (htext.keyword keyword hkeyword)
    · exact toLower_not_mem_keyword hkeyword fun hword => absurd hword (hbetween.last c hc)
    · exact toLower_not_mem_keyword hkeyword
        (head?_append_comment hcuts.opens hbetween.head hc)
  have hcolon' := getLast?_trimEnd_replace hcolon htext.word.1 htext.not_blank htext.colon
  have hword : lexRun text = ofWord text := by
    rw [lexRun_eq, if_neg]
    intro hall
    have hhead := htext.word.2 _ (List.head_mem htext.word.1)
    exact not_inWord_of_blank (List.all_eq_true.1 hall _ (List.head_mem htext.word.1)) hhead
  rw [flatMap_text_lexRun, flatMap_text_lexRun, lexLine_of_cuts hcuts' hline', lexCode,
    if_neg hcolon', hbetween.splitBy htext.word, List.map_append, List.map_cons, hword]

theorem PlainLabel.eq {text : List Char} (h : PlainLabel text) : text = text.dropLast ++ [':'] :=
  (List.dropLast_append_getLast? ':' h.colon).symm

theorem PlainLabel.not_blank {text : List Char} (h : PlainLabel text) :
    ∀ c ∈ text, isBlank c = false := by
  rw [h.eq, List.forall_mem_append]
  exact ⟨fun c hc => (h.word.2 c hc).1, List.forall_mem_singleton.2 (by decide)⟩

theorem PlainLabel.isChain {text : List Char} (h : PlainLabel text) : text.IsChain Apart := by
  rw [h.eq, List.isChain_append]
  refine ⟨isChain_apart h.hyphens, .singleton _, fun a _ b hb hboth => ?_⟩
  rw [hboth.2] at hb
  contradiction

theorem colon_of_mem_lexCode {code : List Char} {l : Lexeme} (h : l ∈ lexCode code)
    (hkind : l.kind = .labelDef) : (trimEnd code).getLast? = some ':' := by
  by_contra hcolon
  rw [lexCode, if_neg hcolon] at h
  obtain ⟨run, -, rfl⟩ := List.mem_map.1 h
  unfold lexRun TokenKind.ofText at hkind
  dsimp only at hkind
  grind

theorem lexLine_replace_label {code comment text : List Char} {before after : List Lexeme}
    {l : Lexeme} (hcuts : Cuts code comment) (h : lexCode code = before ++ l :: after)
    (hkind : l.kind = .labelDef) (htext : PlainLabel text) :
    lexLine false (before.flatMap Lexeme.text ++ text ++ after.flatMap Lexeme.text ++ comment) =
      (before ++ ⟨.labelDef, text⟩ :: after ++ lexeme .comment comment, false) := by
  have hmem : l ∈ lexCode code := by
    rw [h]
    simp
  have hcolon := colon_of_mem_lexCode hmem hkind
  have hne : trimEnd code ≠ [] := List.ne_nil_of_mem (List.mem_of_getLast? hcolon)
  have hlabel : lexeme .labelDef (trim code) = [⟨.labelDef, trim code⟩] := by
    apply if_neg
    rw [List.isEmpty_iff]
    intro hnil
    rw [← getLast?_trim, hnil] at hcolon
    contradiction
  have hblank (text : List Char) : l ∉ lexeme .blank text := by
    intro hl
    rw [kind_of_mem_lexeme hl] at hkind
    contradiction
  rw [lexCode, if_pos hcolon, hlabel, List.append_assoc, List.singleton_append,
    List.append_cons_inj_of_notMem (hblank _) (hblank _)] at h
  obtain ⟨rfl, rfl, rfl⟩ := h
  have hnil : text ≠ [] := List.ne_nil_of_mem (List.mem_of_getLast? htext.colon)
  have hleading : ∀ c ∈ leading code, isBlank c = true := fun c => isBlank_of_mem_leading
  have htrailing : ∀ c ∈ trailing code, isBlank c = true := fun c => isBlank_of_mem_trailing
  have hcode : code = leading code ++ trim code ++ trailing code := by
    rw [leading_append_trim hne, trimEnd_append_trailing]
  -- The declaration is the whole code but for the blanks around it, so its colon both
  -- keeps the line a declaration and keeps keywords away.
  rw [hcode] at hcuts
  have hcuts' : Cuts (leading code ++ text ++ trailing code) comment := by
    refine hcuts.replace (fun hlast => ?_) htext.isChain (by simp [htext.colon])
    have hdash := hleading '-' (List.mem_of_getLast? hlast)
    contradiction
  have hline' : Keyless (leading code ++ text ++ trailing code ++ comment) := by
    intro keyword hkeyword
    apply startsWithKeyword_eq_false (c := ':') _
      (toLower_not_mem_keyword hkeyword fun _ => .inr rfl)
    rw [List.append_assoc, List.append_assoc, firstWord_blanks_append hleading,
      firstWord_append_of_no_blank hnil htext.not_blank]
    exact List.mem_append_left _ (List.mem_of_getLast? htext.colon)
  have hcolon' : (trimEnd (leading code ++ text ++ trailing code)).getLast? = some ':' := by
    rw [trimEnd_blanks_around htrailing hnil htext.not_blank,
      List.getLast?_append_of_ne_nil _ hnil, htext.colon]
  rw [(spells_lexeme _ _).text, (spells_lexeme _ _).text, lexLine_of_cuts hcuts' hline', lexCode,
    if_pos hcolon', leading_blanks_around hleading htrailing hnil htext.not_blank,
    trim_blanks_around hleading htrailing hnil htext.not_blank,
    trailing_blanks_around htrailing hnil htext.not_blank]
  simp [lexeme, hnil]

end Lexer

open Lexer

def TokenKind.Accepts : TokenKind → List Char → Prop
  | .word, text | .integer, text => PlainWord text
  | .labelDef, text => PlainLabel text
  | _, _ => False

theorem TokenKind.Accepts.not_blank {kind : TokenKind} {text : List Char}
    (h : kind.Accepts text) : ∀ c ∈ text, isBlank c = false := by
  cases kind with
  | word | integer => exact PlainWord.not_blank h
  | labelDef => exact PlainLabel.not_blank h
  | _ => contradiction

namespace Lexer

def Lexeme.substitute (l : Lexeme) (text : List Char) : Lexeme where
  kind :=
    match l.kind with
    | .labelDef | .comment | .blank => l.kind
    | _ => .ofText text
  text := text

theorem append_eq_append_cons {α : Type} {as bs before after : List α} {x : α}
    (h : as ++ bs = before ++ x :: after) :
    (∃ rest, as = before ++ x :: rest ∧ after = rest ++ bs) ∨
      ∃ front, before = as ++ front ∧ bs = front ++ x :: after := by
  rcases List.append_eq_append_iff.1 h with hright | ⟨back, has, hback⟩
  · exact .inr hright
  · cases back with
    | nil => exact .inr ⟨[], by simpa using has.symm, by simpa using hback.symm⟩
    | cons y rest =>
      rw [List.cons_append, List.cons.injEq] at hback
      exact .inl ⟨rest, hback.1 ▸ has, hback.2⟩

theorem keyless_or_skipped (line : List Char) :
    Keyless line ∨ (lexLine false line).1 = lexeme .comment line := by
  unfold Keyless lexLine
  by_cases hdefine : startsWithKeyword "define" line = true
  · simp [hdefine]
  · by_cases hcomment : startsWithKeyword "comment" line = true
    · simp [hdefine, hcomment]
    · simp [hdefine, hcomment]

/-- With another text for one of its tokens a line is cut at the same places. -/
theorem lexLine_replace {inBlock : Bool} {line text : List Char} {before after : List Lexeme}
    {l : Lexeme} (h : (lexLine inBlock line).1 = before ++ l :: after)
    (htext : l.kind.Accepts text) :
    lexLine inBlock (before.flatMap Lexeme.text ++ text ++ after.flatMap Lexeme.text) =
      (before ++ l.substitute text :: after, (lexLine inBlock line).2) := by
  have hcomment (comment : List Char) : l ∉ lexeme .comment comment := by
    intro hl
    rw [kind_of_mem_lexeme hl] at htext
    exact htext
  have hskipped : (lexLine inBlock line).1 ≠ lexeme .comment line := by
    intro hline
    refine hcomment line ?_
    rw [← hline, h]
    simp
  -- A skipped line is one comment, and comments accept no text.
  cases inBlock with
  | true => exact absurd rfl hskipped
  | false =>
    have hkeyless := (keyless_or_skipped line).resolve_right hskipped
    have hcuts := cuts_splitComment line
    rw [← splitComment_append line] at h hkeyless ⊢
    rw [lexLine_of_cuts hcuts hkeyless] at h ⊢
    have hbehind : ¬∃ front, before = lexCode (splitComment line).1 ++ front ∧
        lexeme .comment (splitComment line).2 = front ++ l :: after := by
      rintro ⟨front, -, hfront⟩
      refine hcomment (splitComment line).2 ?_
      rw [hfront]
      simp
    obtain ⟨rest, hcode, rfl⟩ := (append_eq_append_cons h).resolve_right hbehind
    rw [List.flatMap_append, (spells_lexeme _ _).text, ← List.append_assoc]
    obtain ⟨kind, old⟩ := l
    cases kind with
    | word =>
      rw [lexLine_replace_word hcuts hkeyless hcode (.inl rfl) htext]
      simp [Lexeme.substitute, ofWord]
    | integer =>
      rw [lexLine_replace_word hcuts hkeyless hcode (.inr rfl) htext]
      simp [Lexeme.substitute, ofWord]
    | labelDef =>
      rw [lexLine_replace_label hcuts hcode rfl htext]
      simp [Lexeme.substitute]
    | _ => contradiction

end Lexer
end TileMachine
