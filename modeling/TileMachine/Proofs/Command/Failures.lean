import TileMachine.Proofs.Command.Verbose
import TileMachine.Proofs.Source.LineTable

/-! What a run that fails says about the place: the number and the text of the source line
with the instruction that failed, or nothing if the run was stopped from outside. -/
namespace TileMachine
open Execution Text

namespace Execution

variable {e : Execution} {error : RuntimeError}

theorem index_lt_of_failed {index : Nat} (hopen : e.status.isTerminal = false)
    (h : e.step.1 = .failed error) (hindex : error.index? = some index) :
    index < e.program.length := by
  have hstep := e.stepsTo
  generalize e.step = next at hstep h
  cases hstep with
  | rests hended =>
    rw [hopen] at hended
    contradiction
  | limit =>
    cases h
    contradiction
  | fault _ hi =>
    cases h
    cases hindex
    exact (Array.getElem?_eq_some_iff.1 hi).1
  | ends | proceeds | finishes => contradiction

theorem exists_failed_step {n : Nat} (hopen : e.status.isTerminal = false)
    (h : (e.after n).status = .failed error) :
    ∃ k, (e.after k).status.isTerminal = false ∧ (e.after k).step.1 = .failed error := by
  have hended : (e.after n).status.isTerminal = true := by
    rw [h]
    rfl
  obtain ⟨k, hle, hends⟩ := exists_endsAfter hended
  rw [after_eq_of_le hends.ended hle] at h
  cases k with
  | zero =>
    have hstart := hends.ended
    rw [after, hopen] at hstart
    contradiction
  | succ k =>
    refine ⟨k, hends.going k (Nat.lt_succ_self k), ?_⟩
    rw [step_answer, Status.answer_eq_failed_iff]
    exact h

end Execution

theorem Machine.oneLine_message_of_failed (m : Machine) {inbox : List Value} {tiles : Tiles}
    {n : Nat} {error : RuntimeError} (hinbox : ∀ v ∈ inbox, v.Valid)
    (htiles : tiles.Valid)
    (hfailed : ((m.start inbox tiles).after n).status = .failed error) :
    OneLine error.message := by
  have hfollows := m.follows_start hinbox htiles
  obtain ⟨k, hopen, hstep⟩ := exists_failed_step rfl hfailed
  rcases (hfollows.after k).open_or_terminal with hended | ⟨hlast, -⟩
  · rw [hopen] at hended
    contradiction
  · exact hlast.oneLine_message (hfollows.after k).valid hstep

namespace Command

variable {files : Files} {path source text : String} {inbox tiles : Option String}
variable {verbose : Bool} {maxSteps patience : Nat} {p : Program} {report : Report}
variable {m : Machine} {values : List Value} {floor : Tiles} {words : Json.Error → String}

theorem loadRun_of_parse (hfile : files path = .ok source.toUTF8)
    (hparse : Program.parse source = .ok p)
    (hload : loadRun files path inbox tiles maxSteps = .ok (text, m, values, floor)) :
    text = source ∧ m.program = p := by
  have hprogram := (loadRun_eq_ok_iff.1 hload).1
  rw [loadProgram_toUTF8 hfile hparse] at hprogram
  cases hprogram
  exact ⟨rfl, rfl⟩

theorem exists_failed_of_exitCode
    (h : Command.respond? files patience (.run path inbox tiles verbose maxSteps) = some report)
    (hcode : report.exitCode = 3) :
    ∃ text m values floor n error,
      loadRun files path inbox tiles maxSteps = .ok (text, m, values, floor) ∧
      n ≤ m.calls patience ∧ ((m.start values floor).after n).status = .failed error := by
  cases hload : loadRun files path inbox tiles maxSteps with
  | error refusal =>
    rw [respond?_of_refusal hload] at h
    cases h
    obtain ⟨complaint, rfl⟩ := blamesInput_loadRun _ hload
    change 1 = 3 at hcode
    contradiction
  | ok loaded =>
    obtain ⟨text, m, values, floor⟩ := loaded
    rw [respond?_of_loadRun hload] at h
    obtain ⟨n, hle, hends⟩ := (isSome_run_iff verbose patience).1 (Option.isSome_of_eq_some h)
    rw [runVerbose_of_endsAfter hends hle, runPlain_of_endsAfter hends hle] at h
    obtain ⟨printed, mark, rfl⟩ : ∃ printed mark,
        report = closing text m printed mark ((m.start values floor).after n) := by
      cases verbose with
      | true => exact ⟨_, _, (Option.some.inj h).symm⟩
      | false => exact ⟨_, _, (Option.some.inj h).symm⟩
    unfold closing at hcode
    split at hcode
    next error hstatus => exact ⟨text, m, values, floor, n, error, rfl, hle, hstatus⟩
    next => contradiction

theorem respond?_of_failed {n : Nat} {error : RuntimeError}
    (hload : loadRun files path inbox tiles maxSteps = .ok (source, m, values, floor))
    (hfailed : ((m.start values floor).after n).status = .failed error)
    (hle : n ≤ m.calls patience) (verbose : Bool) :
    ∃ printed, Command.respond? files patience (.run path inbox tiles verbose maxSteps) =
      some (failedRun source m.program printed error) := by
  have hended : ((m.start values floor).after n).status.isTerminal = true := by
    rw [hfailed]
    rfl
  obtain ⟨k, hkn, hends⟩ := exists_endsAfter hended
  rw [after_eq_of_le hends.ended hkn] at hfailed
  have hclosing (printed : List String) (mark : String) :
      closing source m printed mark ((m.start values floor).after k) =
        failedRun source m.program (unlines printed) error := by
    unfold closing
    rw [hfailed]
  have hle := Nat.le_trans hkn hle
  rw [respond?_of_loadRun hload, runVerbose_of_endsAfter hends hle, runPlain_of_endsAfter hends hle,
    hclosing, hclosing]
  cases verbose with
  | true => exact ⟨_, rfl⟩
  | false => exact ⟨_, rfl⟩

/-- The complaint of a failed run: one line with the error and, if the error blames an
instruction, one with the number and the text of its source line. -/
structure TellsPlace (source : String) (p : Program) (error : RuntimeError) (text : String) :
    Prop where
  message : OneLine error.message
  located : ∀ index, error.index? = some index → ∃ n line, p.lines[index]? = some n ∧
    (lines source.toList)[n - 1]? = some line ∧ OneLine (String.ofList (trim line)) ∧
    text = unlines ["runtime error: " ++ error.message,
      "  --> line " ++ Decimal.ofNat n ++ ": " ++ String.ofList (trim line)]
  unlocated : error.index? = none → text = unlines ["runtime error: " ++ error.message]

theorem errorOutput_failedRun (printed : String) (error : RuntimeError) :
    (failedRun source p printed error).errorOutput words =
      unlines [(Complaint.failed error (place? source p error)).message words] := by
  unfold Report.errorOutput failedRun
  rw [List.map_singleton]

theorem errorOutput_of_place {printed : String} {error : RuntimeError} {n : Nat} {text : String}
    (h : place? source p error = some (n, text)) :
    (failedRun source p printed error).errorOutput words =
      unlines ["runtime error: " ++ error.message,
        "  --> line " ++ Decimal.ofNat n ++ ": " ++ text] := by
  have hbreak : "\n  --> line " = "\n" ++ "  --> line " := by decide
  have hmessage : (Complaint.failed error (some (n, text))).message words = "runtime error: " ++
      error.message ++ "\n  --> line " ++ Decimal.ofNat n ++ ": " ++ text := rfl
  rw [errorOutput_failedRun, h, hmessage, hbreak]
  simp only [unlines, List.map_cons, List.map_nil, String.join_cons, String.join_nil,
    String.append_assoc]

theorem errorOutput_of_no_place {printed : String} {error : RuntimeError}
    (h : place? source p error = none) : (failedRun source p printed error).errorOutput words =
      unlines ["runtime error: " ++ error.message] := by
  have hmessage : (Complaint.failed error none).message words =
      "runtime error: " ++ error.message := rfl
  rw [errorOutput_failedRun, h, hmessage]

theorem tellsPlace_failedRun (hfit : Program.LinesFit source p) {error : RuntimeError}
    (hmessage : OneLine error.message)
    (hindex : ∀ index, error.index? = some index → index < p.length) (printed : String) :
    TellsPlace source p error ((failedRun source p printed error).errorOutput words) := by
  refine ⟨hmessage, fun index herror => ?_, fun herror => errorOutput_of_no_place ?_⟩
  · have hlt : index < p.lines.size := by
      rw [hfit.size]
      exact hindex index herror
    have hn : p.lines[index]? = some p.lines[index] := Array.getElem?_eq_getElem hlt
    have hwithin := hfit.within p.lines[index] (Array.getElem_mem hlt)
    have hline : p.lines[index] - 1 < (lines source.toList).length := by omega
    have hplace : place? source p error = some (p.lines[index],
        String.ofList (trim (lines source.toList)[p.lines[index] - 1])) := by
      simp [place?, herror, Program.lineOf?, hn, List.getElem?_eq_getElem hline]
    refine ⟨_, _, hn, List.getElem?_eq_getElem hline, ?_, errorOutput_of_place hplace⟩
    rw [oneLine_ofList]
    exact fun hfeed => feed_not_mem_of_mem_lines (List.getElem_mem hline)
      ((isInfix_trim _).subset hfeed)
  · simp [place?, herror]

theorem oneLine_and_index_lt_of_failed {n : Nat} {error : RuntimeError}
    (hload : loadRun files path inbox tiles maxSteps = .ok (source, m, values, floor))
    (hfailed : ((m.start values floor).after n).status = .failed error) :
    OneLine error.message ∧ ∀ index, error.index? = some index → index < m.program.length := by
  obtain ⟨-, -, hinbox, htiles⟩ := loadRun_eq_ok_iff.1 hload
  constructor
  · exact m.oneLine_message_of_failed (valid_of_loadInbox hinbox) (valid_of_loadTiles htiles)
      hfailed
  · intro index hindex
    obtain ⟨k, hopen, hstep⟩ := exists_failed_step rfl hfailed
    have hlt := index_lt_of_failed hopen hstep hindex
    rwa [(after_program _ k).1] at hlt

/-- The source line that a failed run shows is the one with the instruction that failed: the
line table has an entry for each instruction, the entries ascend, and each line on its own
reads as its instruction. A run that is stopped by its bound shows no line. Exit code 3
stands for these runs and for no others. -/
theorem tellsPlace_of_run {source : String} {p : Program} (hparse : Program.parse source = .ok p) :
    Program.LinesFit source p ∧
      ∀ (files : Files) (path : String) (inbox tiles : Option String) (maxSteps : Nat),
        files path = .ok source.toUTF8 →
        let answer (verbose : Bool) (patience : Nat) :=
          Command.respond? files patience (.run path inbox tiles verbose maxSteps)
        let loaded := loadRun files path inbox tiles maxSteps
        (∀ verbose patience report, answer verbose patience = some report → report.exitCode = 3 →
          ∃ text m values floor n error, loaded = .ok (text, m, values, floor) ∧
            n ≤ m.calls patience ∧ ((m.start values floor).after n).status = .failed error) ∧
        ∀ text m values floor n error, loaded = .ok (text, m, values, floor) →
          ((m.start values floor).after n).status = .failed error →
          m.program = p ∧ ∀ verbose patience, n ≤ m.calls patience →
            ∃ report, answer verbose patience = some report ∧ report.exitCode = 3 ∧
              ∀ words, TellsPlace source p error (report.errorOutput words) := by
  have hfit := Program.linesFit_of_parse hparse
  refine ⟨hfit, fun files path inbox tiles maxSteps hfile => ?_⟩
  intro answer loaded
  refine ⟨fun verbose patience report => exists_failed_of_exitCode, ?_⟩
  intro text m values floor n error hload hfailed
  obtain ⟨rfl, rfl⟩ := loadRun_of_parse hfile hparse hload
  obtain ⟨hmessage, hindex⟩ := oneLine_and_index_lt_of_failed hload hfailed
  refine ⟨rfl, fun verbose patience hle => ?_⟩
  obtain ⟨printed, hanswer⟩ := respond?_of_failed hload hfailed hle verbose
  exact ⟨_, hanswer, rfl, fun _ => tellsPlace_failedRun hfit hmessage hindex printed⟩

/-- Line 7 is the second one with an instruction: before it stand a comment, a label, an
empty line and a block. -/
theorem tellsPlace_of_run_bumpup :
    let source := "comment one up\ntop:\n  inbox\n\n define a\nb;\n  BUMPUP 3 -- empty\n  jump top\n"
    let p : Program :=
      ⟨#[⟨.inbox, .nothing⟩, ⟨.bumpup, .tile (.direct 3)⟩, ⟨.jump, .label "top" 0⟩],
        (∅ : Labels) |>.insert "top" 0, #[3, 7, 8]⟩
    let files : Files := fun _ => .ok source.toUTF8
    Program.parse source = .ok p ∧ Program.LinesFit source p ∧ ∃ report,
      Command.respond? files 9 (.run "up.hrm" (some "1") none true 0) = some report ∧
      report.exitCode = 3 ∧ report.errorOutput =
        "runtime error: tile 3 is empty at instruction 1\n  --> line 7: BUMPUP 3 -- empty\n" := by
  intro source p files
  have hparse : Program.parse source = .ok p := toOption_eq_some.1 (by decide +kernel)
  let m : Machine := ⟨p, none, by decide +kernel⟩
  have hloaded : loadRun files "up.hrm" (some "1") none 0 = .ok (source, m, [.int 1], ∅) := by
    refine loadRun_eq_ok_iff.2 ⟨loadProgram_toUTF8 rfl hparse, rfl, ?_, rfl⟩
    exact toOption_eq_some.1 (by decide +kernel)
  have hfailed : ((m.start [.int 1] ∅).after 2).status = .failed (.fault 1 (.emptyTile 3)) := by
    decide +kernel
  obtain ⟨hfit, hruns⟩ := tellsPlace_of_run hparse
  obtain ⟨-, htells⟩ := hruns files "up.hrm" (some "1") none 0 rfl
  obtain ⟨-, hreports⟩ := htells source m _ _ 2 _ hloaded hfailed
  obtain ⟨report, hanswer, hcode, hplace⟩ := hreports true 9 (by decide)
  refine ⟨hparse, hfit, report, hanswer, hcode, ?_⟩
  obtain ⟨n, line, hn, hline, -, htext⟩ := (hplace fun _ => "").located 1 rfl
  obtain rfl : n = 7 := by simpa [p] using hn.symm
  obtain rfl : line = "  BUMPUP 3 -- empty".toList := by
    have hseventh : (lines source.toList)[6]? = some "  BUMPUP 3 -- empty".toList := by
      decide +kernel
    exact Option.some.inj (hline.symm.trans hseventh)
  rw [htext]
  decide +kernel

end Command
end TileMachine
