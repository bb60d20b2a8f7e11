import TileMachine.Proofs.Source.Places
import TileMachine.Proofs.Source.Relexing

/-! Tokens of a text that were given other texts. The tokens around them keep their
places, and nothing is cut anew; yet the tokens are read like the text that they are
written out to, which is cut from its first character on. -/
namespace TileMachine
open Text Lexer

/-- Tokens that come from others by giving some of them a text that they accept. -/
inductive Token.Edits (tokens : List Token) : List Token → Prop where
  | refl : Edits tokens tokens
  | edit {edited : List Token} {i : Nat} {t : Token} {text : String} : Edits tokens edited →
      edited[i]? = some t → t.kind.Accepts text.toList →
      Edits tokens (edited.set i (t.substitute text))

/-! ### Tokens without their places -/

def Lexer.Lexeme.on (line : Nat) (l : Lexeme) : Token :=
  ⟨l.kind, String.ofList l.text, line, ⟨0, 0⟩⟩

theorem Token.unplaced_eq (t : Token) : t.unplaced = t.lexeme.on t.line := by
  simp [unplaced, lexeme, Lexeme.on]

theorem Token.unplaced_substitute (t : Token) (text : String) :
    (t.substitute text).unplaced = (t.lexeme.substitute text.toList).on t.line := by
  obtain ⟨kind, old, line, span⟩ := t
  cases kind <;> simp [unplaced, substitute, lexeme, Lexeme.substitute, Lexeme.on]

theorem Lexer.map_unplaced_place (line start : Nat) (lexemes : List Lexeme) :
    (place line start lexemes).map Token.unplaced = lexemes.map (Lexeme.on line) := by
  induction lexemes generalizing start with
  | nil => rfl
  | cons l ls ih =>
    rw [place, List.map_cons, ih]
    rfl

theorem Token.renderFrom_unplaced (line : Nat) (tokens : List Token) :
    renderFrom line (tokens.map unplaced) = renderFrom line tokens := by
  induction tokens generalizing line with
  | nil => rfl
  | cons t ts ih =>
    rw [List.map_cons, renderFrom, renderFrom, ih]
    rfl

theorem Token.render_unplaced (tokens : List Token) :
    render (tokens.map unplaced) = render tokens := by
  unfold render
  rw [renderFrom_unplaced, List.isEmpty_map]

/-! ### Edits -/

theorem Lexer.feed_not_mem_replace {inBlock : Bool} {line text : List Char}
    {before after : List Lexeme} {l : Lexeme} (hline : '\n' ∉ line)
    (h : (lexLine inBlock line).1 = before ++ l :: after) (htext : ∀ c ∈ text, isBlank c = false) :
    '\n' ∉ before.flatMap Lexeme.text ++ text ++ after.flatMap Lexeme.text := by
  have hspells := (spells_lexLine inBlock line).text
  rw [h, List.flatMap_append, List.flatMap_cons] at hspells
  rw [← hspells] at hline
  simp only [List.mem_append, not_or] at hline ⊢
  refine ⟨⟨hline.1, fun hfeed => ?_⟩, hline.2.2⟩
  have hblank := htext '\n' hfeed
  contradiction

theorem Lexer.exists_lexLines_replace {ls : List (List Char)} (hfeeds : ∀ line ∈ ls, '\n' ∉ line)
    {inBlock : Bool} {first : Nat} {before after : List Token} {t : Token} {text : String}
    (h : lexLines inBlock first ls = before ++ t :: after)
    (htext : t.kind.Accepts text.toList) : ∃ ls', (∀ line ∈ ls', '\n' ∉ line) ∧
      (lexLines inBlock first ls').map Token.unplaced =
        (before ++ t.substitute text :: after).map Token.unplaced := by
  induction ls generalizing inBlock first before with
  | nil => simp [lexLines] at h
  | cons line ls ih =>
    rw [List.forall_mem_cons] at hfeeds
    rw [lexLines_cons] at h
    -- The token is on this line or on a later one.
    rcases append_eq_append_cons h with ⟨rest, hplaced, rfl⟩ | ⟨front, rfl, hlater⟩
    · have hlexemes := congrArg (List.map Token.lexeme) hplaced
      rw [map_lexeme_place, List.map_append, List.map_cons] at hlexemes
      refine ⟨_ :: ls, List.forall_mem_cons.2
        ⟨feed_not_mem_replace hfeeds.1 hlexemes htext.not_blank, hfeeds.2⟩, ?_⟩
      have hon : ∀ s ∈ before ++ t :: rest, s.unplaced = s.lexeme.on first := by
        rw [← hplaced]
        intro s hs
        rw [s.unplaced_eq, line_of_mem_place hs]
      rw [List.forall_mem_append, List.forall_mem_cons] at hon
      have ht : t.line = first := congrArg Token.line hon.2.1
      rw [lexLines_cons, lexLine_replace hlexemes htext]
      simp only [List.map_append, List.map_cons, map_unplaced_place, List.map_map,
        List.map_congr_left hon.1, List.map_congr_left hon.2.2, Token.unplaced_substitute, ht,
        Function.comp_def, List.append_assoc, List.cons_append]
    · obtain ⟨ls', hfeeds', htokens⟩ := ih hfeeds.2 hlater
      refine ⟨line :: ls', List.forall_mem_cons.2 ⟨hfeeds.1, hfeeds'⟩, ?_⟩
      rw [lexLines_cons, List.map_append, htokens]
      simp

def Lexer.Relexes (tokens : List Token) : Prop :=
  ∃ ls, (∀ line ∈ ls, '\n' ∉ line) ∧
    (lexLines false 1 ls).map Token.unplaced = tokens.map Token.unplaced

theorem Lexer.Relexes.edit {tokens : List Token} (h : Relexes tokens) {i : Nat} {t : Token}
    {text : String} (ht : tokens[i]? = some t) (htext : t.kind.Accepts text.toList) :
    Relexes (tokens.set i (t.substitute text)) := by
  obtain ⟨ls, hfeeds, htokens⟩ := h
  have hother : ((lexLines false 1 ls).map Token.unplaced)[i]? = some t.unplaced := by
    rw [htokens, List.getElem?_map, ht]
    rfl
  rw [List.getElem?_map, Option.map_eq_some_iff] at hother
  obtain ⟨s, hs, hst⟩ := hother
  have hkind : s.unplaced.kind = t.unplaced.kind := congrArg Token.kind hst
  have hgiven : (s.substitute text).unplaced = (t.substitute text).unplaced := by
    have hlexeme : s.unplaced.lexeme = t.unplaced.lexeme := congrArg Token.lexeme hst
    have hline : s.unplaced.line = t.unplaced.line := congrArg Token.line hst
    rw [Token.unplaced_substitute, Token.unplaced_substitute]
    exact congrArg₂ (fun l line => (Lexeme.substitute l text.toList).on line) hlexeme hline
  obtain ⟨hi, hself⟩ := List.getElem?_eq_some_iff.1 hs
  have hsplit := List.set_getElem_self hi
  rw [hself, List.set_eq_take_append_cons_drop, if_pos hi] at hsplit
  have haccepts : s.kind.Accepts text.toList := by
    change s.unplaced.kind.Accepts text.toList
    rw [hkind]
    exact htext
  obtain ⟨ls', hfeeds', htokens'⟩ := exists_lexLines_replace hfeeds hsplit.symm haccepts
  refine ⟨ls', hfeeds', ?_⟩
  have hset : (lexLines false 1 ls).set i (s.substitute text) = _ :=
    List.set_eq_take_append_cons_drop
  rw [if_pos hi] at hset
  rw [htokens', ← hset, List.map_set, List.map_set, htokens, hgiven]

theorem Lexer.relexes_of_edits {source : String} {tokens : List Token}
    (h : Token.Edits (tokenize source) tokens) : Relexes tokens := by
  induction h with
  | refl => exact ⟨_, fun _ => feed_not_mem_of_mem_lines, rfl⟩
  | edit _ ht htext ih => exact ih.edit ht htext

theorem Program.parse_render_lexLines {ls : List (List Char)} (h : ∀ line ∈ ls, '\n' ∉ line) :
    Program.parse (Token.render (lexLines false 1 ls)) =
      Program.ofTokens (lexLines false 1 ls) := by
  have htrim : trimEnd ∘ dropReturn = trimEnd := funext trimEnd_dropReturn
  unfold Program.ofTokens
  rw [Program.parse_eq, Lexer.lines_render_lexLines h, ← Draft.foldlM_map_trimEnd, List.map_map,
    htrim, Draft.foldlM_map_trimEnd, Draft.foldlM_kept, Draft.ofTokens_lexLines]

/-- Tokens of a text that were given other texts are read like the text that they make up:
as the same program, or with the same complaint about the same line. -/
theorem Program.told_of_edits {source : String} {tokens : List Token}
    (h : Token.Edits (tokenize source) tokens) :
    (Program.ofTokens tokens).mapError ParseError.told =
      (Program.parse (Token.render tokens)).mapError ParseError.told := by
  obtain ⟨ls, hfeeds, htokens⟩ := relexes_of_edits h
  rw [← Program.told_ofTokens tokens, ← Token.render_unplaced tokens, ← htokens,
    Program.told_ofTokens, Token.render_unplaced, Program.parse_render_lexLines hfeeds]

/-- A label gets a longer name, and then a numeral gets more digits. What is wrong is told
alike, though the token that is too much is looked for where it stood before. -/
theorem Program.told_of_edits_stale :
    let source := "go: -- again\n\tcopyto [1]x--y\n"
    let renamed := (tokenize source).set 0 (Token.substitute ⟨.labelDef, "go:", 1, ⟨0, 3⟩⟩ "top:")
    let edited := renamed.set 7 (Token.substitute ⟨.integer, "1", 2, ⟨9, 10⟩⟩ "100")
    Token.Edits (tokenize source) edited ∧
      Token.render edited = "top: -- again\n\tcopyto [100]x--y\n" ∧
      (Program.ofTokens edited).mapError ParseError.told =
        (Program.parse (Token.render edited)).mapError ParseError.told ∧
      Program.ofTokens edited ≠ Program.parse (Token.render edited) := by
  intro source renamed edited
  have hlabel : PlainLabel "top:".toList := ⟨by decide, by decide, by decide⟩
  have hnumeral : PlainWord "100".toList :=
    ⟨by decide, by decide, by decide, by decide, by decide⟩
  have hrenamed : Token.Edits (tokenize source) renamed := .edit .refl (by decide +kernel) hlabel
  have hedited : Token.Edits (tokenize source) edited :=
    .edit hrenamed (by decide +kernel) hnumeral
  refine ⟨hedited, by decide +kernel, Program.told_of_edits hedited, ?_⟩
  decide +kernel

end TileMachine
