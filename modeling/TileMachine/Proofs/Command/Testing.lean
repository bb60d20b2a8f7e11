import TileMachine.Proofs.Command.Failures
import TileMachine.Proofs.Fixture.Validity
import TileMachine.Proofs.PrintedValues

/-! Testing a program on the examples of a fixture. Each example gets a run of its own on the
floor of the fixture, and passes if the run ends with exactly its outbox. The output has one
title for each example, in order, and the number of those that passed at its end. -/
namespace TileMachine
open Text

theorem Machine.oneLine_of_run?_error {m : Machine} {inbox : List Value} {tiles : Tiles}
    {patience : Nat} {error : RuntimeError} (hinbox : ∀ v ∈ inbox, v.Valid) (htiles : tiles.Valid)
    (h : m.run? patience inbox tiles = some (.error error)) : OneLine error.message := by
  rw [run?_eq_result?, Execution.result?_eq_error_iff] at h
  exact m.oneLine_message_of_failed hinbox htiles h

/-! ### Lines of output -/

structure Report.Prints (report : Report) (lines : List String) : Prop where
  output : report.output = unlines lines
  oneLine : ∀ line ∈ lines, OneLine line

theorem Report.Prints.unique {report : Report} {lines lines' : List String}
    (h : report.Prints lines) (h' : report.Prints lines') : lines = lines' := by
  apply eq_of_unlines_eq h.oneLine h'.oneLine
  rw [← h.output, ← h'.output]

def Report.Says (report : Report) (line : String) : Prop :=
  ∃ lines, report.Prints lines ∧ line ∈ lines

theorem Report.Prints.says_iff {report : Report} {lines : List String} (h : report.Prints lines)
    {line : String} : report.Says line ↔ line ∈ lines := by
  constructor
  · rintro ⟨lines', h', hline⟩
    rwa [h.unique h']
  · intro hline
    exact ⟨lines, h, hline⟩

namespace Command

variable {m : Machine} {patience : Nat} {tiles : Tiles} {x : Example} {v : Verdict}

/-! ### One example -/

/-- A fresh run on the inbox of the example ends with exactly its outbox. -/
def passes (m : Machine) (patience : Nat) (tiles : Tiles) (x : Example) : Bool :=
  decide (m.run? patience x.inbox tiles = some (.ok x.outbox))

def title (index : Nat) (passed : Bool) : String :=
  "example " ++ Decimal.ofNat index ++ ": " ++ if passed then "ok" else "FAILED"

def isTitle (line : String) : Bool :=
  "example ".toList.isPrefixOf line.toList

def Verdict.details (v : Verdict) (x : Example) : List String :=
  match v with
  | pass => []
  | mismatch outbox => ["  expected: " ++ Value.join x.outbox, "  got:      " ++ Value.join outbox]
  | failed e => ["  runtime error: " ++ e.message]

theorem Verdict.lines_eq (v : Verdict) (x : Example) (index : Nat) :
    v.lines x index = title index (v = .pass) :: v.details x := by
  cases v <;> rfl

theorem judge?_eq_some_iff : judge? patience m tiles x = some v ↔
    ∃ result, m.run? patience x.inbox tiles = some result ∧ Verdict.of x result = v :=
  Option.map_eq_some_iff

theorem passes_of_judge? (h : judge? patience m tiles x = some v) :
    passes m patience tiles x = decide (v = .pass) := by
  obtain ⟨result, hrun, rfl⟩ := judge?_eq_some_iff.1 h
  unfold passes Verdict.of
  rw [hrun]
  cases result with
  | error error => simp
  | ok outbox =>
    by_cases hsame : outbox = x.outbox
    · simp [hsame]
    · simp [hsame]

theorem judge?_of_le {more : Nat} (h : judge? patience m tiles x = some v) (hle : patience ≤ more) :
    judge? more m tiles x = some v := by
  obtain ⟨result, hrun, hv⟩ := judge?_eq_some_iff.1 h
  exact judge?_eq_some_iff.2 ⟨result, Machine.run?_of_le hrun hle, hv⟩

theorem judge?_unique {patience' : Nat} {v' : Verdict} (h : judge? patience m tiles x = some v)
    (h' : judge? patience' m tiles x = some v') : v = v' := by
  have hlater := judge?_of_le h (Nat.le_max_left patience patience')
  rw [judge?_of_le h' (Nat.le_max_right patience patience')] at hlater
  exact (Option.some.inj hlater).symm

theorem isTitle_title (index : Nat) (passed : Bool) : isTitle (title index passed) = true := by
  unfold isTitle title
  rw [List.isPrefixOf_iff_prefix, String.toList_append, String.toList_append,
    String.toList_append, List.append_assoc, List.append_assoc]
  exact List.prefix_append _ _

theorem isTitle_of_head? {line : String} {c : Char} (h : line.toList.head? = some c)
    (hc : c ≠ 'e') : isTitle line = false := by
  unfold isTitle
  rw [← Bool.not_eq_true, List.isPrefixOf_iff_prefix]
  rintro ⟨rest, hline⟩
  rw [← hline] at h
  exact hc (Option.some.inj h).symm

theorem Verdict.isTitle_of_mem_details {line : String} (h : line ∈ v.details x) :
    isTitle line = false := by
  have hindented : line.toList.head? = some ' ' := by
    cases v with
    | pass => contradiction
    | mismatch outbox =>
      rcases List.mem_pair.1 h with rfl | rfl
      · rw [String.toList_append, List.head?_append]
        rfl
      · rw [String.toList_append, List.head?_append]
        rfl
    | failed e =>
      rw [List.mem_singleton.1 h, String.toList_append, List.head?_append]
      rfl
  exact isTitle_of_head? hindented (by decide)

theorem Verdict.filter_lines (v : Verdict) (x : Example) (index : Nat) :
    (v.lines x index).filter isTitle = [title index (v = .pass)] := by
  rw [lines_eq, List.filter_cons_of_pos (isTitle_title _ _), List.filter_eq_nil_iff.2]
  intro line hline
  rw [isTitle_of_mem_details hline]
  exact Bool.false_ne_true

theorem title_inj {index index' : Nat} {passed passed' : Bool}
    (h : title index passed = title index' passed') : index = index' ∧ passed = passed' := by
  have hcolon (n : Nat) : ':' ∉ (Decimal.ofNat n).toList := fun hmem =>
    absurd (Decimal.isDigit_of_mem_ofNat hmem) (by decide)
  have hchars := congrArg String.toList h
  simp only [title, String.toList_append, List.append_assoc, List.append_cancel_left_eq] at hchars
  -- No digit is a colon, so both texts are cut at the end of the number.
  obtain ⟨hdigits, hrest⟩ := eq_of_append_cons (hcolon index) (hcolon index') hchars
  constructor
  · have hread := Decimal.digits?_ofNat index
    rw [hdigits, Decimal.digits?_ofNat] at hread
    exact (Option.some.inj hread).symm
  · cases passed <;> cases passed'
    · rfl
    · contradiction
    · contradiction
    · rfl

theorem oneLine_title (index : Nat) (passed : Bool) : OneLine (title index passed) := by
  have hword : OneLine (if passed = true then "ok" else "FAILED") := by
    cases passed <;> decide
  unfold title
  simp only [oneLine_append, oneLine_ofNat, hword, and_true]
  decide

theorem oneLine_of_judge? (hx : x.Valid) (htiles : tiles.Valid)
    (h : judge? patience m tiles x = some v) (index : Nat) :
    ∀ line ∈ v.lines x index, OneLine line := by
  have hinbox : ∀ w ∈ x.inbox, w.Valid := fun w hw => hx w (List.mem_append_left _ hw)
  have houtbox : ∀ w ∈ x.outbox, w.Valid := fun w hw => hx w (List.mem_append_right _ hw)
  obtain ⟨result, hrun, hv⟩ := judge?_eq_some_iff.1 h
  rw [Verdict.lines_eq, List.forall_mem_cons]
  refine ⟨oneLine_title _ _, ?_⟩
  cases result with
  | error error =>
    cases hv
    have herror := Machine.oneLine_of_run?_error hinbox htiles hrun
    exact List.forall_mem_singleton.2 (oneLine_append.2 ⟨by decide, herror⟩)
  | ok outbox =>
    have hgot := Machine.valid_of_run? hinbox htiles hrun
    rw [Verdict.of] at hv
    split at hv
    · cases hv
      exact List.forall_mem_nil _
    · cases hv
      refine List.forall_mem_cons.2 ⟨?_, List.forall_mem_singleton.2 ?_⟩
      · exact oneLine_append.2 ⟨by decide, Value.oneLine_join houtbox⟩
      · exact oneLine_append.2 ⟨by decide, Value.oneLine_join hgot⟩

/-! ### All examples -/

def paragraphs (examples : List Example) (verdicts : List Verdict) (start : Nat) : List String :=
  ((examples.zip verdicts).zipIdx start).flatMap fun ((x, v), index) => v.lines x index

def summary (passed total : Nat) : String :=
  Decimal.ofNat passed ++ "/" ++ Decimal.ofNat total ++ " examples passed"

def testLines (examples : List Example) (verdicts : List Verdict) : List String :=
  paragraphs examples verdicts 0 ++ [summary (verdicts.count .pass) examples.length]

theorem paragraphs_cons (x : Example) (v : Verdict) (examples : List Example)
    (verdicts : List Verdict) (start : Nat) :
    paragraphs (x :: examples) (v :: verdicts) start =
      v.lines x start ++ paragraphs examples verdicts (start + 1) :=
  rfl

theorem oneLine_summary (passed total : Nat) : OneLine (summary passed total) := by
  unfold summary
  simp only [oneLine_append, oneLine_ofNat, true_and, and_true]
  decide

theorem isTitle_summary (passed total : Nat) : isTitle (summary passed total) = false := by
  have hne : Nat.toDigits 10 passed ≠ [] := Nat.toDigits_ne_nil
  obtain ⟨c, cs, hdigits⟩ := List.exists_cons_of_ne_nil hne
  have hdigit : c.isDigit = true := by
    apply Decimal.isDigit_of_mem_ofNat (n := passed)
    rw [Decimal.toList_ofNat, hdigits]
    exact List.mem_cons_self
  apply isTitle_of_head? (c := c)
  · unfold summary
    rw [String.toList_append, String.toList_append, String.toList_append, Decimal.toList_ofNat,
      hdigits]
    rfl
  · rintro rfl
    contradiction

section Verdicts
variable {examples : List Example} {verdicts : List Verdict}
  (h : List.Forall₂ (fun x v => judge? patience m tiles x = some v) examples verdicts)
include h

theorem filter_paragraphs (start : Nat) : (paragraphs examples verdicts start).filter isTitle =
    (examples.zipIdx start).map fun (x, index) => title index (passes m patience tiles x) := by
  induction h generalizing start with
  | nil => rfl
  | @cons x v examples verdicts hv _ ih =>
    rw [paragraphs_cons, List.filter_append, Verdict.filter_lines, ih, ← passes_of_judge? hv]
    rfl

theorem count_pass : verdicts.count .pass = examples.countP (passes m patience tiles) := by
  induction h with
  | nil => rfl
  | @cons x v examples verdicts hv _ ih =>
    rw [List.count_cons, List.countP_cons, passes_of_judge? hv, ih]
    simp

theorem oneLine_paragraphs (hexamples : ∀ x ∈ examples, x.Valid) (htiles : tiles.Valid)
    (start : Nat) : ∀ line ∈ paragraphs examples verdicts start, OneLine line := by
  induction h generalizing start with
  | nil => exact List.forall_mem_nil _
  | @cons x v examples verdicts hv _ ih =>
    rw [List.forall_mem_cons] at hexamples
    rw [paragraphs_cons, List.forall_mem_append]
    exact ⟨oneLine_of_judge? hexamples.1 htiles hv start, ih hexamples.2 (start + 1)⟩

end Verdicts

theorem exists_verdicts_iff {examples : List Example} :
    (∃ verdicts, List.Forall₂ (fun x v => judge? patience m tiles x = some v) examples verdicts) ↔
      ∀ x ∈ examples, (m.run? patience x.inbox tiles).isSome = true := by
  have hjudged (x : Example) : (∃ v, judge? patience m tiles x = some v) ↔
      (m.run? patience x.inbox tiles).isSome = true := by
    rw [← Option.isSome_iff_exists, judge?, Option.isSome_map]
  constructor
  · rintro ⟨verdicts, h⟩ x hx
    obtain ⟨v, -, hv⟩ := exists_mem_of_mem_left h hx
    exact (hjudged x).1 ⟨v, hv⟩
  · intro h
    exact exists_forall₂ fun x hx => (hjudged x).2 (h x hx)

/-- Runs that end one by one end within one patience. -/
theorem exists_enough {examples : List Example}
    (h : ∀ x ∈ examples, ∃ patience, (m.run? patience x.inbox tiles).isSome = true) :
    ∃ enough, ∀ x ∈ examples, (m.run? enough x.inbox tiles).isSome = true := by
  induction examples with
  | nil => exact ⟨0, List.forall_mem_nil _⟩
  | cons x examples ih =>
    rw [List.forall_mem_cons] at h
    obtain ⟨first, hfirst⟩ := h.1
    obtain ⟨others, hothers⟩ := ih h.2
    refine ⟨max first others, List.forall_mem_cons.2 ⟨?_, fun y hy => ?_⟩⟩
    · exact Machine.isSome_run?_of_le hfirst (Nat.le_max_left _ _)
    · exact Machine.isSome_run?_of_le (hothers y hy) (Nat.le_max_right _ _)

/-- What a test tells about a fixture, as lines of output. -/
structure Judged (m : Machine) (patience : Nat) (fixture : Fixture) (report : Report)
    (lines : List String) : Prop where
  prints : report.Prints lines
  titles : lines.filter isTitle = fixture.examples.zipIdx.map fun (x, index) =>
    title index (passes m patience fixture.tiles x)
  summary : lines.getLast? = some (summary
    (fixture.examples.countP (passes m patience fixture.tiles)) fixture.examples.length)
  exitCode : report.exitCode =
    if fixture.examples.countP (passes m patience fixture.tiles) = fixture.examples.length
    then 0 else 4
  silent : ∀ words, report.errorOutput words = ""

variable {fixture : Fixture} {verdicts : List Verdict}

theorem judged_testReport (hvalid : fixture.Valid)
    (h : List.Forall₂ (fun x v => judge? patience m fixture.tiles x = some v) fixture.examples
      verdicts) :
    Judged m patience fixture (testReport fixture.examples verdicts)
      (testLines fixture.examples verdicts) where
  prints := by
    refine ⟨rfl, List.forall_mem_append.2 ⟨?_, ?_⟩⟩
    · exact oneLine_paragraphs h hvalid.examples hvalid.tiles 0
    · exact List.forall_mem_singleton.2 (oneLine_summary _ _)
  titles := by
    rw [testLines, List.filter_append, filter_paragraphs h, List.filter_singleton, isTitle_summary]
    exact List.append_nil _
  summary := by
    rw [testLines, List.getLast?_concat, count_pass h]
  exitCode := by
    rw [← count_pass h, Report.exitCode, testReport]
    dsimp only
    split <;> rfl
  silent := fun _ => rfl

theorem Judged.says_title_iff {report : Report} {lines : List String}
    (h : Judged m patience fixture report lines) {index : Nat} {passed : Bool}
    (hx : fixture.examples[index]? = some x) :
    report.Says (title index passed) ↔ passes m patience fixture.tiles x = passed := by
  have hfilter : title index passed ∈ lines ↔ title index passed ∈ lines.filter isTitle := by
    rw [List.mem_filter, isTitle_title, and_iff_left rfl]
  rw [h.prints.says_iff, hfilter, h.titles, List.mem_map]
  constructor
  · rintro ⟨⟨y, k⟩, hy, htitle⟩
    obtain ⟨rfl, hpasses⟩ := title_inj htitle
    rw [List.mem_zipIdx_iff_getElem?, hx] at hy
    cases hy
    exact hpasses
  · intro hpasses
    exact ⟨(x, index), List.mem_zipIdx_iff_getElem?.2 hx, congrArg (title index) hpasses⟩

/-! ### The command -/

variable {files : Files} {path place : String} {maxSteps : Nat} {p : Program}

def HoldsProgram (files : Files) (path : String) (p : Program) : Prop :=
  ∃ source : String, files path = .ok source.toUTF8 ∧ Program.parse source = .ok p

def HoldsFixture (files : Files) (place : String) (fixture : Fixture) : Prop :=
  ∃ text : String, files place = .ok text.toUTF8 ∧ Fixture.parse text = .ok fixture

theorem HoldsFixture.load (h : HoldsFixture files place fixture) :
    loadFixture files place = .ok fixture := by
  obtain ⟨text, hfile, hparse⟩ := h
  unfold loadFixture
  rw [readText_toUTF8 hfile]
  exact mapError_eq_ok.2 hparse

theorem HoldsFixture.valid (h : HoldsFixture files place fixture) : fixture.Valid := by
  obtain ⟨text, -, hparse⟩ := h
  exact Fixture.valid_of_parse hparse

section Test
variable (hprogram : HoldsProgram files path m.program) (hlimit : m.limit = limitOf maxSteps)
  (hfixture : HoldsFixture files place fixture)
include hprogram hlimit hfixture

theorem respond?_test (patience : Nat) : respond? files patience (.test path place maxSteps) =
    (fixture.examples.mapM (judge? patience m fixture.tiles)).map
      (testReport fixture.examples) := by
  obtain ⟨source, hfile, hparse⟩ := hprogram
  have hmachine : loadMachine m.program (limitOf maxSteps) = .ok m :=
    loadMachine_eq_ok_iff.2 ⟨rfl, hlimit⟩
  rw [respond?, answerTest, loadProgram_toUTF8 hfile hparse, hfixture.load]
  dsimp only [bind, Except.bind]
  rw [hmachine]
  rfl

theorem respond?_test_eq_some_iff {report : Report} :
    respond? files patience (.test path place maxSteps) = some report ↔
      ∃ verdicts, List.Forall₂ (fun x v => judge? patience m fixture.tiles x = some v)
        fixture.examples verdicts ∧ testReport fixture.examples verdicts = report := by
  rw [respond?_test hprogram hlimit hfixture, Option.map_eq_some_iff]
  simp only [mapM_eq_some]

theorem isSome_respond?_test : (respond? files patience (.test path place maxSteps)).isSome = true ↔
    ∀ x ∈ fixture.examples, (m.run? patience x.inbox fixture.tiles).isSome = true := by
  rw [← exists_verdicts_iff, Option.isSome_iff_exists]
  simp only [respond?_test_eq_some_iff hprogram hlimit hfixture]
  constructor
  · rintro ⟨report, verdicts, hverdicts, -⟩
    exact ⟨verdicts, hverdicts⟩
  · rintro ⟨verdicts, hverdicts⟩
    exact ⟨_, verdicts, hverdicts, rfl⟩

theorem exists_judged (h : ∀ x ∈ fixture.examples, ∃ patience,
      (m.run? patience x.inbox fixture.tiles).isSome = true) :
    ∃ report lines enough, ∀ patience, enough ≤ patience →
      respond? files patience (.test path place maxSteps) = some report ∧
        Judged m patience fixture report lines := by
  obtain ⟨enough, henough⟩ := exists_enough h
  obtain ⟨verdicts, hverdicts⟩ := exists_verdicts_iff.2 henough
  -- More patience changes no verdict, so the report stays the same from here on.
  refine ⟨testReport fixture.examples verdicts, testLines fixture.examples verdicts, enough, ?_⟩
  intro patience hle
  have hlater := hverdicts.imp fun x v hv => judge?_of_le hv hle
  exact ⟨(respond?_test_eq_some_iff hprogram hlimit hfixture).2 ⟨verdicts, hlater, rfl⟩,
    judged_testReport hfixture.valid hlater⟩

theorem exists_verdict_of_title {report : Report} {index : Nat} {passed : Bool}
    (h : respond? files patience (.test path place maxSteps) = some report)
    (hx : fixture.examples[index]? = some x) :
    ∃ v, judge? patience m fixture.tiles x = some v ∧
      (report.Says (title index passed) ↔ decide (v = .pass) = passed) := by
  obtain ⟨verdicts, hverdicts, rfl⟩ := (respond?_test_eq_some_iff hprogram hlimit hfixture).1 h
  obtain ⟨v, -, hv⟩ := exists_mem_of_mem_left hverdicts (List.mem_of_getElem? hx)
  refine ⟨v, hv, ?_⟩
  rw [(judged_testReport hfixture.valid hverdicts).says_title_iff hx, passes_of_judge? hv]

end Test

/-- Tests judge examples one by one. If every run ends, there is a report: it has a title for
each example in order, with `ok` if a fresh run of the program on the floor of the fixture
gives exactly the outbox and with `FAILED` otherwise, and at the end the number of those that
passed. The exit code is 0 if all of them did, and else 4, whatever went wrong. An example is
judged alike in every fixture with this floor, wherever it stands. -/
theorem judged_of_test (hprogram : HoldsProgram files path p) (maxSteps : Nat) :
    let answer (place : String) (patience : Nat) :=
      respond? files patience (.test path place maxSteps)
    ∃ m : Machine, m.program = p ∧ m.limit = limitOf maxSteps ∧
      (∀ place fixture, HoldsFixture files place fixture →
        (∀ patience, (answer place patience).isSome = true ↔
          ∀ x ∈ fixture.examples, (m.run? patience x.inbox fixture.tiles).isSome = true) ∧
        ((∀ x ∈ fixture.examples, ∃ patience,
            (m.run? patience x.inbox fixture.tiles).isSome = true) →
          ∃ report lines enough, ∀ patience, enough ≤ patience →
            answer place patience = some report ∧ Judged m patience fixture report lines)) ∧
      ∀ place place' fixture fixture', HoldsFixture files place fixture →
        HoldsFixture files place' fixture' → fixture'.tiles = fixture.tiles →
        ∀ patience patience' report report', answer place patience = some report →
          answer place' patience' = some report' →
          ∀ index index' x passed, fixture.examples[index]? = some x →
            fixture'.examples[index']? = some x →
            (report.Says (title index passed) ↔ report'.Says (title index' passed)) := by
  intro answer
  have hvalid : p.errors = [] := by
    obtain ⟨source, -, hparse⟩ := hprogram
    exact (Program.assembled_of_ofTokens hparse).valid
  let m : Machine := ⟨p, limitOf maxSteps, hvalid⟩
  refine ⟨m, rfl, rfl, fun place fixture hfixture => ⟨fun patience => ?_, ?_⟩, ?_⟩
  · exact isSome_respond?_test (m := m) hprogram rfl hfixture
  · exact exists_judged (m := m) hprogram rfl hfixture
  · intro place place' fixture fixture' hfixture hfixture' htiles patience patience' report report'
      hreport hreport' index index' x passed hx hx'
    obtain ⟨v, hv, htitle⟩ := exists_verdict_of_title (m := m) hprogram rfl hfixture hreport hx
    obtain ⟨v', hv', htitle'⟩ := exists_verdict_of_title (m := m) hprogram rfl hfixture' hreport' hx'
    rw [htiles] at hv'
    rw [htitle, htitle', judge?_unique hv hv']

/-- The program leaves its sum on the tile that it adds. The last example would pass if the
floor of the first were still there; the second one fails with a runtime error. -/
theorem judged_of_test_sum :
    let p : Program :=
      ⟨#[⟨.inbox, .nothing⟩, ⟨.add, .tile (.direct 0)⟩, ⟨.copyto, .tile (.direct 0)⟩,
        ⟨.outbox, .nothing⟩], ∅, #[1, 2, 3, 4]⟩
    let fixture : Fixture :=
      ⟨.ofItems [some (.int 5)], [⟨[.int 1], [.int 6]⟩, ⟨[.letter 'A'], []⟩, ⟨[.int 1], [.int 7]⟩]⟩
    let json := "\x7b\"tiles\":[5],\"examples\":[\x7b\"inbox\":[1],\"outbox\":[6]\x7d," ++
      "\x7b\"inbox\":[\"a\"],\"outbox\":[]\x7d,\x7b\"inbox\":[1],\"outbox\":[7]\x7d]\x7d"
    let files : Files := fun path =>
      .ok (if path = "sum.hrm" then "inbox\nadd 0\ncopyto 0\noutbox" else json).toUTF8
    HoldsProgram files "sum.hrm" p ∧ HoldsFixture files "sum.json" fixture ∧
      ∃ patience report lines,
        respond? files patience (.test "sum.hrm" "sum.json" 100) = some report ∧
        report.Prints lines ∧ report.exitCode = 4 ∧
        lines.filter isTitle = ["example 0: ok", "example 1: FAILED", "example 2: FAILED"] ∧
        lines.getLast? = some "1/3 examples passed" := by
  intro p fixture json files
  have hprogram : HoldsProgram files "sum.hrm" p :=
    ⟨_, rfl, toOption_eq_some.1 (by decide +kernel)⟩
  have hfixture : HoldsFixture files "sum.json" fixture :=
    ⟨_, rfl, toOption_eq_some.1 (by decide +kernel)⟩
  obtain ⟨⟨_, _, _⟩, rfl, rfl, htests, -⟩ := judged_of_test hprogram 100
  let m : Machine := ⟨p, limitOf 100, by decide +kernel⟩
  have hsum (patience : Nat) : m.run? patience [.int 1] fixture.tiles = some (.ok [.int 6]) := by
    have hnow : m.run? 0 [.int 1] fixture.tiles = some (.ok [.int 6]) := by decide +kernel
    exact Machine.run?_of_le hnow (Nat.zero_le patience)
  have hletter (patience : Nat) : m.run? patience [.letter 'A'] fixture.tiles =
      some (.error (.fault 1 (.cannotAddTo (.letter 'A')))) := by
    have hnow : m.run? 0 [.letter 'A'] fixture.tiles =
        some (.error (.fault 1 (.cannotAddTo (.letter 'A')))) := by decide +kernel
    exact Machine.run?_of_le hnow (Nat.zero_le patience)
  have hends : ∀ x ∈ fixture.examples, ∃ patience,
      (m.run? patience x.inbox fixture.tiles).isSome = true := by
    intro x hx
    simp only [fixture, List.mem_cons, List.not_mem_nil, or_false] at hx
    rcases hx with rfl | rfl | rfl
    · exact ⟨0, congrArg Option.isSome (hsum 0)⟩
    · exact ⟨0, congrArg Option.isSome (hletter 0)⟩
    · exact ⟨0, congrArg Option.isSome (hsum 0)⟩
  obtain ⟨report, lines, enough, hreport⟩ := (htests "sum.json" fixture hfixture).2 hends
  obtain ⟨hanswer, hjudged⟩ := hreport enough (Nat.le_refl enough)
  have hfirst : passes m enough fixture.tiles ⟨[.int 1], [.int 6]⟩ = true :=
    decide_eq_true (hsum enough)
  have hsecond : passes m enough fixture.tiles ⟨[.letter 'A'], []⟩ = false := by
    rw [passes, hletter enough]
    decide
  have hthird : passes m enough fixture.tiles ⟨[.int 1], [.int 7]⟩ = false := by
    rw [passes, hsum enough]
    decide
  have hcount : fixture.examples.countP (passes m enough fixture.tiles) = 1 := by
    rw [List.countP_cons_of_pos hfirst, List.countP_cons_of_neg (Bool.eq_false_iff.1 hsecond),
      List.countP_cons_of_neg (Bool.eq_false_iff.1 hthird), List.countP_nil]
  refine ⟨hprogram, hfixture, enough, report, lines, hanswer, hjudged.prints, ?_, ?_, ?_⟩
  · rw [hjudged.exitCode, hcount]
    rfl
  · calc
      lines.filter isTitle =
          [title 0 (passes m enough fixture.tiles ⟨[.int 1], [.int 6]⟩),
            title 1 (passes m enough fixture.tiles ⟨[.letter 'A'], []⟩),
            title 2 (passes m enough fixture.tiles ⟨[.int 1], [.int 7]⟩)] := hjudged.titles
      _ = [title 0 true, title 1 false, title 2 false] := by rw [hfirst, hsecond, hthird]
      _ = ["example 0: ok", "example 1: FAILED", "example 2: FAILED"] := by decide +kernel
  · rw [hjudged.summary, hcount]
    decide +kernel

end Command
end TileMachine
