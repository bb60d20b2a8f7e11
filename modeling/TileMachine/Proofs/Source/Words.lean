import Mathlib.Data.List.SplitBy
import TileMachine.Proofs.Source.Grammar
import TileMachine.Proofs.Text.Trimming
import TileMachine.Source.Lexer

/-! The runs that the lexer cuts a code into are the words and brackets of the
grammar, with the blanks between them; what it cuts off as a comment starts at
the first double hyphen. -/
namespace TileMachine.Grammar
open Text

theorem isBlank_bracket {c : Char} (h : c = '[' ∨ c = ']') : isBlank c = false := by
  rcases h with rfl | rfl <;> decide

theorem not_inWord_of_blank {c : Char} (h : isBlank c = true) : ¬InWord c := by
  intro hw
  rw [hw.1] at h
  contradiction

theorem inWord_or (c : Char) : isBlank c = true ∨ (c = '[' ∨ c = ']') ∨ InWord c := by
  unfold InWord
  by_cases hb : isBlank c = true
  · exact .inl hb
  · by_cases hl : c = '[' <;> by_cases hr : c = ']' <;> simp_all

theorem Splits.append_blanks {cs back : List Char} {ws : List (List Char)} (h : Splits cs ws)
    (hback : ∀ c ∈ back, isBlank c = true) : Splits (cs ++ back) ws := by
  induction h with
  | nil =>
    induction back with
    | nil => exact .nil
    | cons c back ih =>
      rw [List.forall_mem_cons] at hback
      exact .blank hback.1 (ih hback.2)
  | blank hc _ ih => exact .blank hc ih
  | bracket hc _ ih => exact .bracket hc ih
  | @word w cs ws hw hrest _ ih =>
    rw [List.append_assoc]
    refine .word hw (fun c hc => ?_) ih
    cases cs with
    | nil => exact not_inWord_of_blank (hback c (List.mem_of_head? hc))
    | cons d cs => exact hrest c hc

theorem Splits.blanks_append {front cs : List Char} {ws : List (List Char)} (h : Splits cs ws)
    (hfront : ∀ c ∈ front, isBlank c = true) : Splits (front ++ cs) ws := by
  induction front with
  | nil => exact h
  | cons c front ih =>
    rw [List.forall_mem_cons] at hfront
    exact .blank hfront.1 (ih hfront.2)

theorem Splits.isBlank_of_mem {cs : List Char} (h : Splits cs []) : ∀ c ∈ cs, isBlank c = true := by
  generalize hws : ([] : List (List Char)) = ws at h
  induction h with
  | nil => simp
  | blank hc _ ih => exact List.forall_mem_cons.2 ⟨hc, ih hws⟩
  | bracket => contradiction
  | word => contradiction

theorem Splits.trim_eq_nil {cs : List Char} (h : Splits (trim cs) []) : trim cs = [] := by
  cases hlast : (trim cs).getLast? with
  | none => exact List.getLast?_eq_none_iff.1 hlast
  | some c =>
    have hblank := h.isBlank_of_mem c (List.mem_of_getLast? hlast)
    rw [getLast?_trim_not_blank hlast] at hblank
    contradiction

theorem Splits.getLast? {cs : List Char} {ws : List (List Char)} (h : Splits cs ws)
    {w : List Char} (hw : ws.getLast? = some w) :
    ∃ front back, cs = front ++ w ++ back ∧ ∀ c ∈ back, isBlank c = true := by
  induction h with
  | nil => simp at hw
  | @blank c cs ws _ _ ih =>
    obtain ⟨front, back, rfl, hback⟩ := ih hw
    exact ⟨c :: front, back, rfl, hback⟩
  | @bracket c cs ws _ hrest ih =>
    cases ws with
    | nil =>
      have hw : [c] = w := by simpa using hw
      exact ⟨[], cs, by simp [← hw], hrest.isBlank_of_mem⟩
    | cons v ws =>
      rw [List.getLast?_cons_cons] at hw
      obtain ⟨front, back, rfl, hback⟩ := ih hw
      exact ⟨c :: front, back, rfl, hback⟩
  | @word v cs ws _ _ hrest ih =>
    cases ws with
    | nil =>
      have hw : v = w := by simpa using hw
      exact ⟨[], cs, by simp [hw], hrest.isBlank_of_mem⟩
    | cons u ws =>
      rw [List.getLast?_cons_cons] at hw
      obtain ⟨front, back, rfl, hback⟩ := ih hw
      exact ⟨v ++ front, back, by simp, hback⟩

theorem IsCode.length_le {line a b : List Char} (ha : IsCode line a) (hb : IsCode line b) :
    b.length ≤ a.length := by
  obtain ⟨tail, hline, htail⟩ := ha.cut
  obtain ⟨other, hother, -⟩ := hb.cut
  by_contra hlt
  have hdrop : line.drop a.length = tail := by rw [hline, List.drop_left]
  rcases htail with rfl | htail
  · have hlen := congrArg List.length hline
    rw [hother] at hlen
    simp only [List.length_append, List.length_nil] at hlen
    omega
  · exact hb.first a.length (by omega) (hdrop ▸ htail)

theorem IsCode.eq {line a b : List Char} (ha : IsCode line a) (hb : IsCode line b) : a = b := by
  have hlen : a.length = b.length := Nat.le_antisymm (hb.length_le ha) (ha.length_le hb)
  obtain ⟨tail, hline, -⟩ := ha.cut
  obtain ⟨other, hother, -⟩ := hb.cut
  exact (List.append_inj (hline.symm.trans hother) hlen).1

end TileMachine.Grammar

namespace TileMachine.Lexer
open Text Grammar

theorem CharClass.of_bracket {c : Char} (h : c = '[' ∨ c = ']') : CharClass.of c = .bracket := by
  rcases h with rfl | rfl <;> rfl

theorem CharClass.of_blank {c : Char} (h : isBlank c = true) : CharClass.of c = .blank := by
  have hb : ¬(c = '[' ∨ c = ']') := fun hb => by simp [isBlank_bracket hb] at h
  simpa [CharClass.of, h] using hb

theorem CharClass.of_eq_word_iff {c : Char} : CharClass.of c = .word ↔ InWord c := by
  unfold CharClass.of InWord
  by_cases hl : c = '[' <;> by_cases hr : c = ']' <;> by_cases hb : isBlank c = true <;>
    simp [hl, hr, hb]

theorem sameRun_iff {a b : Char} : sameRun a b = true ↔
    CharClass.of a = CharClass.of b ∧ CharClass.of a ≠ .bracket := by
  simp [sameRun]

theorem isChain_of_class {run : List Char} {k : CharClass} (hk : k ≠ .bracket)
    (h : ∀ c ∈ run, CharClass.of c = k) : run.IsChain fun a b => sameRun a b = true := by
  refine List.Pairwise.isChain (List.pairwise_of_forall_mem_list fun a ha b hb => ?_)
  rw [sameRun_iff, h a ha, h b hb]
  exact ⟨rfl, hk⟩

def words (code : List Char) : List (List Char) :=
  (code.splitBy sameRun).filter fun run => !run.all isBlank

theorem splitBy_run {run rest : List Char} {k : CharClass} (hk : k ≠ .bracket) (hne : run ≠ [])
    (h : ∀ c ∈ run, CharClass.of c = k) (hrest : ∀ c, rest.head? = some c → CharClass.of c ≠ k) :
    (run ++ rest).splitBy sameRun = run :: rest.splitBy sameRun := by
  rw [List.splitBy_append, List.splitBy_of_isChain hne (isChain_of_class hk h)]
  · rfl
  · intro a ha b hb
    rw [Bool.eq_false_iff]
    intro hsame
    have hclass := (sameRun_iff.1 hsame).1
    rw [h a (List.mem_of_getLast? ha)] at hclass
    exact hrest b hb hclass.symm

theorem words_blanks {front rest : List Char} (h : ∀ c ∈ front, isBlank c = true)
    (hrest : ∀ c, rest.head? = some c → isBlank c = false) : words (front ++ rest) = words rest := by
  by_cases hne : front = []
  · rw [hne, List.nil_append]
  · unfold words
    rw [splitBy_run (k := .blank) (by decide) hne fun c hc => CharClass.of_blank (h c hc)]
    · rw [List.filter_cons_of_neg]
      simpa using h
    · intro c hc hclass
      rcases inWord_or c with hb | hb | hb
      · rw [hrest c hc] at hb
        contradiction
      · rw [CharClass.of_bracket hb] at hclass
        contradiction
      · rw [CharClass.of_eq_word_iff.2 hb] at hclass
        contradiction

theorem words_cons_blank {c : Char} (cs : List Char) (h : isBlank c = true) :
    words (c :: cs) = words cs := by
  have hrest : ∀ d, (trimStart cs).head? = some d → isBlank d = false :=
    fun d => head?_trimStart_not_blank
  have hfront : ∀ d ∈ c :: leading cs, isBlank d = true :=
    List.forall_mem_cons.2 ⟨h, fun d => isBlank_of_mem_leading⟩
  calc words (c :: cs) = words ((c :: leading cs) ++ trimStart cs) := by
        rw [List.cons_append, leading_append_trimStart]
    _ = words (trimStart cs) := words_blanks hfront hrest
    _ = words (leading cs ++ trimStart cs) :=
        (words_blanks (fun d => isBlank_of_mem_leading) hrest).symm
    _ = words cs := by rw [leading_append_trimStart]

theorem splitBy_cons_bracket {c : Char} (cs : List Char) (h : c = '[' ∨ c = ']') :
    (c :: cs).splitBy sameRun = [c] :: cs.splitBy sameRun := by
  rw [← List.singleton_append, List.splitBy_append,
    List.splitBy_of_isChain (by simp) (List.isChain_singleton c)]
  · rfl
  · intro a ha b hb
    have ha : c = a := by simpa using ha
    rw [Bool.eq_false_iff, ← ha]
    exact fun hsame => (sameRun_iff.1 hsame).2 (CharClass.of_bracket h)

theorem words_cons_bracket {c : Char} (cs : List Char) (h : c = '[' ∨ c = ']') :
    words (c :: cs) = [c] :: words cs := by
  unfold words
  rw [splitBy_cons_bracket cs h]
  simp [isBlank_bracket h]

theorem words_append {w rest : List Char} (hw : IsWord w)
    (hrest : ∀ c, rest.head? = some c → ¬InWord c) : words (w ++ rest) = w :: words rest := by
  unfold words
  rw [splitBy_run (k := .word) (by decide) hw.1 fun c hc => CharClass.of_eq_word_iff.2 (hw.2 c hc)]
  · rw [List.filter_cons_of_pos]
    obtain ⟨c, rest, rfl⟩ := List.exists_cons_of_ne_nil hw.1
    simp [(hw.2 c List.mem_cons_self).1]
  · exact fun c hc hclass => hrest c hc (CharClass.of_eq_word_iff.1 hclass)

theorem words_eq_of_splits {cs : List Char} {ws : List (List Char)} (h : Splits cs ws) :
    words cs = ws := by
  induction h with
  | nil => rfl
  | blank hc _ ih => rw [words_cons_blank _ hc, ih]
  | bracket hc _ ih => rw [words_cons_bracket _ hc, ih]
  | word hw hrest _ ih => rw [words_append hw hrest, ih]

theorem splits_words (cs : List Char) : Splits cs (words cs) := by
  induction hn : cs.length using Nat.strong_induction_on generalizing cs with
  | _ n ih =>
    subst hn
    cases cs with
    | nil => exact .nil
    | cons c cs =>
      -- Each step takes a blank, a bracket or a whole word off the front.
      rcases inWord_or c with hb | hb | hb
      · rw [words_cons_blank cs hb]
        exact .blank hb (ih _ (by simp) cs rfl)
      · rw [words_cons_bracket cs hb]
        exact .bracket hb (ih _ (by simp) cs rfl)
      · let inWord : Char → Bool := fun d => CharClass.of d == .word
        have hc : inWord c = true := by simpa [inWord] using CharClass.of_eq_word_iff.2 hb
        have hw : IsWord ((c :: cs).takeWhile inWord) := by
          refine ⟨by simp [hc], fun d hd => ?_⟩
          have hclass : inWord d = true := List.mem_takeWhile_imp hd
          exact CharClass.of_eq_word_iff.1 (by simpa [inWord] using hclass)
        have hrest : ∀ d, ((c :: cs).dropWhile inWord).head? = some d → ¬InWord d := by
          intro d hd hword
          have hnot := List.head?_dropWhile_not inWord (c :: cs)
          rw [hd] at hnot
          simp [inWord, CharClass.of_eq_word_iff.2 hword] at hnot
        have hshort : ((c :: cs).dropWhile inWord).length < (c :: cs).length := by
          rw [List.dropWhile_cons_of_pos hc, List.length_cons]
          exact Nat.lt_succ_of_le (List.length_dropWhile_le _ _)
        rw [← List.takeWhile_append_dropWhile (p := inWord) (l := c :: cs), words_append hw hrest]
        exact .word hw hrest (ih _ hshort _ rfl)

theorem splits_iff {cs : List Char} {ws : List (List Char)} : Splits cs ws ↔ words cs = ws :=
  ⟨words_eq_of_splits, fun h => h ▸ splits_words cs⟩

@[simp] theorem words_trim (cs : List Char) : words (trim cs) = words cs := by
  obtain ⟨front, back, hcs, hfront, hback⟩ := exists_eq_append_trim cs
  have hsplits : Splits (front ++ trim cs ++ back) (words (trim cs)) :=
    ((splits_words (trim cs)).blanks_append hfront).append_blanks hback
  rw [← hcs] at hsplits
  exact (words_eq_of_splits hsplits).symm

/-! ### Comments -/

theorem isCode_splitComment (line : List Char) : IsCode line (splitComment line).1 := by
  fun_induction splitComment line with
  | case1 => exact ⟨⟨[], rfl, .inl rfl⟩, by simp⟩
  | case2 cs => exact ⟨⟨'-' :: '-' :: cs, rfl, .inr ⟨cs, rfl⟩⟩, by simp⟩
  | case3 c cs hstart code comment hcut ih =>
    rw [hcut] at ih
    obtain ⟨⟨tail, hline, htail⟩, hfirst⟩ := ih
    refine ⟨⟨tail, by rw [hline, List.cons_append], htail⟩, fun k hk => ?_⟩
    cases k with
    | zero =>
      rintro ⟨rest, hrest⟩
      rw [List.drop_zero, List.cons_append, List.cons_append, List.nil_append] at hrest
      obtain ⟨rfl, rfl⟩ := List.cons.inj hrest
      exact hstart rest rfl rfl
    | succ k =>
      rw [List.drop_succ_cons]
      exact hfirst k (by simpa using hk)

theorem says_iff {line : List Char} {phrase : Option Phrase} :
    Says line phrase ↔ Means (trim (splitComment line).1) phrase := by
  constructor
  · rintro ⟨code, hcode, hmeans⟩
    rwa [(isCode_splitComment line).eq hcode]
  · exact fun hmeans => ⟨_, isCode_splitComment line, hmeans⟩

end TileMachine.Lexer
