import Lisplet.Command.Outcome
import Lisplet.Proofs.Reader.Acceptance
import Lisplet.Proofs.Reader.ScanErrors
import Lisplet.Proofs.Session.Endings
import Lisplet.Proofs.Session.Sinks
import Lisplet.Proofs.Session.Steps
/-!
The three commands on one text. Each of them starts over from the text: one lists its tokens and its
faulty pieces, one reads it, one reads it and runs what it has read. They agree on what is wrong with
it (`commands_agree`). A text that can be read has no faulty piece, and a faulty piece that it is
rejected for is the first that is listed; what can be read is run, and a run fails where one of the
forms does.

A program may run for ever, so to run a text is told by a relation: it comes to an end with an outcome
if it has that outcome at every depth from some depth on (`Outcome.RunsTo`). A single depth is enough
for that (`Outcome.run_of_le`), and there is at most one such outcome.
-/
namespace Lisplet

/-- The faulty pieces of the text, in order. -/
def Scanner.faults (s : Scanner) : List ScanError :=
  s.readings.filterMap fun
    | .ok _ => none
    | .error e => some e

theorem Scanner.faults_eq_nil_iff {s : Scanner} :
    s.faults = [] ↔ ∀ r ∈ s.readings, r.isOk = true := by
  rw [faults, List.filterMap_eq_nil_iff]
  refine forall₂_congr fun r _ => ?_
  cases r <;> simp [Reading.isOk]

/-- In front of the first faulty piece there are tokens only. -/
theorem Scanner.faults_of_readings {s : Scanner} {ts : List Token} {e : ScanError}
    {rest : List Reading} (h : s.readings = ts.map .ok ++ .error e :: rest) :
    s.faults.head? = some e := by
  have tokens : (ts.map Except.ok).filterMap (fun
      | .ok _ => none
      | .error e => some e : Reading → Option ScanError) = [] := by
    simp
  simp [faults, h, List.filterMap_append, tokens]

/-- A text that can be read has no faulty piece. -/
theorem Script.faults_of_ofText {text : String} {p : Script} (h : Script.ofText text = .ok p) :
    (Scanner.ofText text).faults = [] := by
  obtain ⟨ts, last, readings, -⟩ := Script.ofText_eq_ok_iff.mp h
  rw [Scanner.faults_eq_nil_iff, readings]
  intro r hr
  obtain ⟨t, -, rfl⟩ := List.mem_map.mp hr
  rfl

/-- The script has a form that fails; the session is the one that this form leaves. -/
def Script.Fails (p : Script) (err : EvalError) (s : Session Transcript) : Prop :=
  ∃ steps, Session.Steps (.start .empty) p.forms (steps ++ [(.error (.failed err), s)])

/-- A script that has a form that fails is one whose run fails, at a depth that is enough. -/
theorem Script.fails_iff {p : Script} {err : EvalError} {s : Session Transcript} :
    p.Fails err s ↔ ∃ depth, p.run depth Transcript.empty = (.error (.failed err), s) := by
  rw [Fails, ← Session.evaluateAll_eq_error_iff]
  exact ⟨fun h => h.2, fun h => ⟨by simp, h⟩⟩

namespace Outcome

variable {source : String}

theorem tokenize_code_eq_zero_iff {format : TokenFormat} :
    (tokenize format source).status.code = 0 ↔ (Scanner.ofText source).faults = [] := by
  rw [Scanner.faults_eq_nil_iff, ← List.all_eq_true]
  simp only [tokenize]
  split
  · next all => simp [all, ExitStatus.code]
  · next some => simp [some, ExitStatus.code]

/-- What is listed as wrong is each faulty piece, in order. -/
theorem tokenize_stderr (format : TokenFormat) : (tokenize format source).stderr =
    lines ((Scanner.ofText source).faults.map fun e => Reading.format format (.error e)) := by
  simp only [tokenize, Scanner.faults]
  congr 1
  induction (Scanner.ofText source).readings with
  | nil => rfl
  | cons r rs ih => cases r <;> simp_all [Reading.isOk]

theorem parse_code_eq_iff {format : ScriptFormat} :
    (parse format source).status.code = 65 ↔ ∃ err, Script.ofText source = .error err := by
  cases h : Script.ofText source <;> simp [parse, h, ExitStatus.code]

section
variable {format : ErrorFormat} {path : String} {depth : Nat} {o : Outcome}

theorem run_of_unread {err : ReadError} (unread : Script.ofText source = .error err) :
    run depth format path source =
      some ⟨.badProgram, "", lines [err.formatRun path source format]⟩ := by
  simp only [run, unread]

/-- What a run leaves behind is told from a transcript of it. -/
theorem run_of_read {p : Script} (read : Script.ofText source = .ok p) :
    run depth format path source =
      runEnd format path source (p.run depth Transcript.empty).2.world.heap
        (lines (p.run depth Transcript.empty).2.world.sink.texts.toList)
        (p.run depth Transcript.empty).1 := by
  have data : ((p.run depth Transcript.empty).2.relay Buffer.empty).world.sink.data =
      lines (p.run depth Transcript.empty).2.world.sink.texts.toList :=
    (Buffer.data_foldl _ _).trans String.empty_append
  simp only [run, read, p.run_relayed depth Buffer.empty, data]
  rfl

/-- A run that comes to its end ends well or fails. -/
theorem runEnd_eq_some {h : Heap Builtin} {printed : String} {result : Except Ending Unit}
    (ended : runEnd format path source h printed result = some o) :
    (result = .ok () ∧ o = ⟨.success, printed, ""⟩) ∨
    ∃ err, result = .error (.failed err) ∧
      o = ⟨.failedRun, printed, lines [err.formatRun h path source format]⟩ := by
  rcases result with (_ | err | _ | _) | _ <;> cases ended
  · exact .inr ⟨err, rfl, rfl⟩
  · exact .inl ⟨rfl, rfl⟩

/-- There is no outcome only where the depth is not enough for the script. -/
theorem run_eq_none_iff : run depth format path source = none ↔
    ∃ p, Script.ofText source = .ok p ∧ (p.run depth Transcript.empty).1 = .error .exhausted := by
  cases read : Script.ofText source with
  | error err => simp [run_of_unread read]
  | ok p =>
    rw [run_of_read read]
    constructor
    · intro unended
      refine ⟨p, rfl, ?_⟩
      by_contra finished
      obtain ended | ⟨err, ended⟩ := (Session.Reachable.start _).evaluateAll_ends finished
      · rw [Script.run, ended] at unended
        cases unended
      · rw [Script.run, ended] at unended
        cases unended
    · rintro ⟨_, ⟨⟩, cut⟩
      rw [cut]
      rfl

/-- What comes to its end at one depth does so at every greater one, and in the same way. -/
theorem run_of_le (ended : run depth format path source = some o) {depth' : Nat}
    (le : depth ≤ depth') : run depth' format path source = some o := by
  cases read : Script.ofText source with
  | error err =>
    rw [run_of_unread read] at ended ⊢
    exact ended
  | ok p =>
    rw [run_of_read read] at ended ⊢
    have finished : (p.run depth Transcript.empty).1 ≠ .error .exhausted := by
      intro cut
      rw [cut] at ended
      cases ended
    have same : p.run depth' Transcript.empty = p.run depth Transcript.empty :=
      Session.evaluateAll_of_le le _ _ finished
    rw [same]
    exact ended

end

/-- Running the text comes to an end and leaves this behind: it does at every depth from some depth on. -/
def RunsTo (format : ErrorFormat) (path source : String) (o : Outcome) : Prop :=
  ∃ depth, ∀ depth', depth ≤ depth' → run depth' format path source = some o

section
variable {format : ErrorFormat} {path : String} {o o' : Outcome}

theorem runsTo_iff : RunsTo format path source o ↔ ∃ depth, run depth format path source = some o := by
  constructor
  · rintro ⟨depth, ended⟩
    exact ⟨depth, ended depth (Nat.le_refl _)⟩
  · rintro ⟨depth, ended⟩
    exact ⟨depth, fun _ le => run_of_le ended le⟩

/-- All depths that are enough agree on what is left behind. -/
theorem runsTo_iff_eq {depth : Nat} (ended : run depth format path source = some o) :
    RunsTo format path source o' ↔ o' = o := by
  constructor
  · rintro ⟨depth', ended'⟩
    have here := run_of_le ended (Nat.le_max_left depth depth')
    have there := ended' _ (Nat.le_max_right depth depth')
    exact Option.some.inj (there.symm.trans here)
  · rintro rfl
    exact runsTo_iff.mpr ⟨depth, ended⟩

/-- Only a text that cannot be read makes the program a bad one. -/
theorem runsTo_bad_iff : (∃ o, RunsTo format path source o ∧ o.status.code = 65) ↔
    ∃ err, Script.ofText source = .error err := by
  constructor
  · rintro ⟨o, runs, code⟩
    obtain ⟨depth, ended⟩ := runsTo_iff.mp runs
    cases read : Script.ofText source with
    | error err => exact ⟨err, rfl⟩
    | ok p =>
      rw [run_of_read read] at ended
      obtain ⟨-, rfl⟩ | ⟨err, -, rfl⟩ := runEnd_eq_some ended <;> cases code
  · rintro ⟨err, unread⟩
    exact ⟨_, runsTo_iff.mpr ⟨0, run_of_unread unread⟩, rfl⟩

/-- A script with a form that fails is run up to and into that form. -/
theorem runsTo_of_fails {p : Script} {err : EvalError} {s : Session Transcript}
    (read : Script.ofText source = .ok p) (fails : p.Fails err s) :
    RunsTo format path source ⟨.failedRun, lines s.world.sink.texts.toList,
      lines [err.formatRun s.world.heap path source format]⟩ := by
  obtain ⟨depth, failed⟩ := Script.fails_iff.mp fails
  refine runsTo_iff.mpr ⟨depth, ?_⟩
  rw [run_of_read read, failed]
  rfl

theorem runsTo_failed_iff : (∃ o, RunsTo format path source o ∧ o.status.code = 70) ↔
    ∃ p err s, Script.ofText source = .ok p ∧ p.Fails err s := by
  constructor
  · rintro ⟨o, runs, code⟩
    obtain ⟨depth, ended⟩ := runsTo_iff.mp runs
    cases read : Script.ofText source with
    | error err =>
      rw [run_of_unread read] at ended
      cases ended
      cases code
    | ok p =>
      rw [run_of_read read] at ended
      obtain ⟨-, rfl⟩ | ⟨err, failed, -⟩ := runEnd_eq_some ended
      · cases code
      · exact ⟨p, err, _, rfl, Script.fails_iff.mpr ⟨depth, Prod.ext failed rfl⟩⟩
  · rintro ⟨p, err, s, read, fails⟩
    exact ⟨_, runsTo_of_fails read fails, rfl⟩

end
end Outcome

open Outcome

/-- The commands agree on every text. Listing its tokens ends well if there is no faulty piece, and
lists those that there are. A text that can be read has none. If it is rejected for one, it is so on
its line, the piece is the first of them, and the tokens before it are the beginning of a script; so a
text without one is rejected for something else. Running has no outcome only where the depth is not
enough for the script, and the same outcome wherever it is. Reading and running end in the same way
where the text cannot be read. Where it can, the run fails exactly if a form of the script does; and
then it has printed what the forms wrote, up to what the failing one wrote before it failed, and reports
what that one failed with. -/
theorem commands_agree (source : String) :
    (∀ format, ((tokenize format source).status.code = 0 ↔ (Scanner.ofText source).faults = []) ∧
      (tokenize format source).stderr =
        lines ((Scanner.ofText source).faults.map fun e => Reading.format format (.error e))) ∧
    (∀ p, Script.ofText source = .ok p → (Scanner.ofText source).faults = []) ∧
    (∀ err e, Script.ofText source = .error err → err.fault = .scan e →
      err.line = e.line ∧ (Scanner.ofText source).faults.head? = some e ∧
        ∃ ts rest, (Scanner.ofText source).readings = ts.map .ok ++ .error e :: rest ∧ Viable ts) ∧
    ((Scanner.ofText source).faults = [] →
      ∀ err e, Script.ofText source = .error err → err.fault ≠ .scan e) ∧
    (∀ format script, (tokenize format source).status.code = 0 →
      (parse script source).status.code = 65 →
        ∃ err, Script.ofText source = .error err ∧ ∀ e, err.fault ≠ .scan e) ∧
    (∀ format path depth, run depth format path source = none ↔
      ∃ p, Script.ofText source = .ok p ∧ (p.run depth Transcript.empty).1 = .error .exhausted) ∧
    (∀ format path depth o, run depth format path source = some o →
      ∀ o', RunsTo format path source o' ↔ o' = o) ∧
    (∀ script format path, (parse script source).status.code = 65 ↔
      ∃ o, RunsTo format path source o ∧ o.status.code = 65) ∧
    (∀ format path, (∃ o, RunsTo format path source o ∧ o.status.code = 70) ↔
      ∃ p err s, Script.ofText source = .ok p ∧ p.Fails err s) ∧
    ∀ format path p err s, Script.ofText source = .ok p → p.Fails err s →
      RunsTo format path source ⟨.failedRun, lines s.world.sink.texts.toList,
        lines [err.formatRun s.world.heap path source format]⟩ := by
  have rejected : ∀ err e, Script.ofText source = .error err → err.fault = .scan e →
      err.line = e.line ∧ (Scanner.ofText source).faults.head? = some e ∧ ∃ ts rest,
        (Scanner.ofText source).readings = ts.map .ok ++ .error e :: rest ∧ Viable ts := by
    intro err e failed scan
    obtain rfl := Script.eq_ofScan failed scan
    obtain ⟨ts, rest, readings, viable⟩ := Script.ofText_eq_ofScan_iff.mp failed
    exact ⟨rfl, Scanner.faults_of_readings readings, ts, rest, readings, viable⟩
  have clean : (Scanner.ofText source).faults = [] →
      ∀ err e, Script.ofText source = .error err → err.fault ≠ .scan e := by
    intro none err e failed scan
    have first := (rejected err e failed scan).2.1
    rw [none] at first
    cases first
  refine ⟨fun format => ⟨tokenize_code_eq_zero_iff, tokenize_stderr format⟩,
    fun p read => Script.faults_of_ofText read, rejected, clean, ?_,
    fun format path depth => run_eq_none_iff,
    fun format path depth o ended o' => runsTo_iff_eq ended, ?_,
    fun format path => runsTo_failed_iff, fun format path p err s => runsTo_of_fails⟩
  · intro format script listed unread
    obtain ⟨err, failed⟩ := parse_code_eq_iff.mp unread
    exact ⟨err, failed, fun e => clean (tokenize_code_eq_zero_iff.mp listed) err e failed⟩
  · intro script format path
    rw [parse_code_eq_iff, runsTo_bad_iff]

/-- A text with two faulty pieces, one that breaks off, and one whose second form fails behind what it
prints. -/
theorem commands_agree_on_failures :
    (∃ err, Script.ofText "(f\n9223372036854775808 \"" = .error err ∧ err.line = 2 ∧
      (Scanner.ofText "(f\n9223372036854775808 \"").faults.head? =
        some ⟨.integerOutOfRange "9223372036854775808", 2⟩) ∧
    (∃ err, Script.ofText "(" = .error err ∧ ∀ e, err.fault ≠ .scan e) ∧
    ∃ o, RunsTo .basic "" "(print 1)\n(- (print 2))" o ∧ o.status.code = 70 ∧ o.stdout = "1\n2\n" := by
  obtain ⟨-, -, first, -⟩ := commands_agree "(f\n9223372036854775808 \""
  obtain ⟨-, -, -, -, syntactic, -⟩ := commands_agree "("
  obtain ⟨-, -, -, -, -, -, -, -, -, fails⟩ := commands_agree "(print 1)\n(- (print 2))"
  have scanned : Script.ofText "(f\n9223372036854775808 \"" =
      .error (.ofScan ⟨.integerOutOfRange "9223372036854775808", 2⟩) := by with_unfolding_all rfl
  have read : Script.ofText "(print 1)\n(- (print 2))" = .ok ⟨[
      .call 1 (.access 1 "print") [.literal 1 (.integer 1)],
      .call 2 (.access 2 "-") [.call 2 (.access 2 "print") [.literal 2 (.integer 2)]]]⟩ := by
    with_unfolding_all rfl
  generalize hp : Script.mk [.call 1 (.access 1 "print") [.literal 1 (.integer 1)],
      .call 2 (.access 2 "-") [.call 2 (.access 2 "print") [.literal 2 (.integer 2)]]] = p at read
  have result : (p.run 9 Transcript.empty).1 = .error (.failed ⟨.arityMismatch "-" 2 1, 2⟩) := by
    subst hp
    with_unfolding_all rfl
  have texts : (p.run 9 Transcript.empty).2.world.sink.texts.toList = ["1", "2"] := by
    subst hp
    with_unfolding_all rfl
  have failed : p.Fails _ _ := Script.fails_iff.mpr ⟨9, Prod.ext result rfl⟩
  refine ⟨⟨_, scanned, (first _ _ scanned rfl).1, (first _ _ scanned rfl).2.1⟩, ?_,
    ⟨_, fails .basic "" p _ _ read failed, rfl, ?_⟩⟩
  · exact syntactic .basic .sexpr (by decide +kernel) (by with_unfolding_all rfl)
  · rw [texts]
    rfl

end Lisplet
