import WhileLang.Command.Perform
import WhileLang.Proofs.Scope.Complaint

/-!
# One verdict on a text

`check`, `run`, `fmt` and `render` each begin with the text of a document and may each turn it down. Here they are
shown to agree: they turn down the same texts with the same diagnostics and the same exit status, and what is left
for `run` alone are the ways in which a program that is being executed may stop.
-/

namespace WhileLang

namespace Diagnostics

/-- Diagnostics with an error among them have the code of an error. -/
theorem exists_code_eq {ds : List Diagnostic} (h : hasErrors ds = true) :
    ∃ d ∈ ds, d.isWarning = false ∧ code ds = d.code := by
  obtain ⟨d, hmem, herror⟩ := List.any_eq_true.1 h
  rcases hfind : ds.find? fun d => !d.isWarning with _ | first
  · -- the search cannot fail, since there is an error
    exact absurd herror (List.find?_eq_none.1 hfind d hmem)
  · refine ⟨first, List.mem_of_find?_eq_some hfind, ?_, ?_⟩
    · have hfirst := List.find?_some hfind
      simpa using hfirst
    · rw [code, hfind]

end Diagnostics

/-- However a run is stopped, it is the program that failed, a limit, or somebody who lost interest. -/
theorem Halt.code_toFailure_mem (h : Halt) :
    h.toFailure.code ∈ [Code.unbound, Code.mismatch, Code.budget, Code.cancelled] := by
  cases h with
  | fault f =>
    rw [toFailure]
    split
    · exact List.mem_cons_self
    · exact List.mem_cons_of_mem _ List.mem_cons_self
  | steps | time => simp [toFailure, Failure.code]
  | cancelled | deadline => simp [toFailure, Failure.code]

namespace Document

open Diagnostics (hasErrors)

variable {file : String} {source : Yaml.Source}

/-! ## The check -/

/-- An error that the check finds in a document says that its tree is malformed. -/
theorem code_check {doc : Document} (h : hasErrors doc.check = true) : Diagnostics.code doc.check = .malformed := by
  obtain ⟨d, hmem, herror, hcode⟩ := Diagnostics.exists_code_eq h
  rw [hcode]
  by_cases hp : doc.program = .absent
  · rw [check, hp] at hmem
    rw [List.mem_singleton.1 hmem]
  · obtain ⟨u, -, hcomplaint⟩ := Tree.check_complaints hp doc.env d hmem
    exact hcomplaint.code_eq herror

/-- A defect of a document has one code, with a position or without. -/
theorem Malformed.code_toFailure (file : String) (m : Malformed) : (m.toFailure file).code = .decode := by
  rw [toFailure]
  cases m.span with
  | none => rfl
  | some s => rfl

/-- What is wrong with a text that holds no document is one defect. -/
theorem ofSource_error {m : Malformed} (h : decode file source = .error m) :
    ofSource file source = .error [(m.toFailure file).toDiagnostic] := by
  rw [ofSource, h]

theorem ofSource_ok {doc : Document} (h : decode file source = .ok doc) : ofSource file source = .ok doc := by
  rw [ofSource, h]

theorem checkSource_error {m : Malformed} (h : decode file source = .error m) :
    checkSource file source = [(m.toFailure file).toDiagnostic] := by
  rw [checkSource, ofSource_error h]

theorem checkSource_ok {doc : Document} (h : decode file source = .ok doc) :
    checkSource file source = doc.check := by
  rw [checkSource, ofSource_ok h]

/-- A text without a document has an error. -/
theorem hasErrors_of_error {m : Malformed} (h : decode file source = .error m) :
    hasErrors (checkSource file source) = true := by
  rw [checkSource_error h]
  rfl

/-- The errors of a text are that it holds no document, or that the tree in it is malformed. -/
theorem code_checkSource (h : hasErrors (checkSource file source) = true) :
    Diagnostics.code (checkSource file source) ∈ [Code.decode, Code.malformed] := by
  rcases hd : decode file source with m | doc
  · obtain ⟨d, hmem, -, hcode⟩ := Diagnostics.exists_code_eq h
    rw [checkSource_error hd] at hmem
    rw [hcode, List.mem_singleton.1 hmem]
    have hdecode : (m.toFailure file).toDiagnostic.code = .decode := m.code_toFailure file
    rw [hdecode]
    exact List.mem_cons_self
  · rw [checkSource_ok hd] at h ⊢
    rw [code_check h]
    exact List.mem_cons_of_mem _ List.mem_cons_self

/-- Formatting and rendering need a document and nothing else. -/
theorem formatSource_and_renderSource (file : String) (source : Yaml.Source) :
    match decode file source with
    | .ok doc =>
      formatSource file source = .ok doc.encode ∧ renderSource file source = .ok doc.program.pretty
    | .error m =>
      formatSource file source = .error [(m.toFailure file).toDiagnostic] ∧
        renderSource file source = .error [(m.toFailure file).toDiagnostic] := by
  rcases hd : decode file source with m | doc
  · rw [formatSource, renderSource, ofSource_error hd]
    exact ⟨rfl, rfl⟩
  · rw [formatSource, renderSource, ofSource_ok hd]
    exact ⟨rfl, rfl⟩

/-! ## Execution -/

/-- A document with errors is not executed. -/
theorem executeBy_of_hasErrors {m : Type → Type} [Monad m] {doc : Document} (run : m Outcome)
    (h : hasErrors doc.check = true) : doc.executeBy run = pure (.error doc.check) := by
  simp only [executeBy, h, if_true]

theorem execute_of_hasErrors {doc : Document} (cfg : Settings) (fuel : Nat) (h : hasErrors doc.check = true) :
    doc.execute cfg fuel = .error doc.check :=
  executeBy_of_hasErrors (m := Id) _ h

/-- A document without errors is executed, and its warnings go along. -/
theorem execute_of_clean {doc : Document} (cfg : Settings) (fuel : Nat) (h : hasErrors doc.check = false) :
    doc.execute cfg fuel =
      .ok { warnings := doc.check, outcome := doc.program.execute cfg fuel doc.env } := by
  simp only [execute, executeBy, h]
  rfl

/-- A text with errors is not executed, and the errors are those of the check. -/
theorem executeSource_of_hasErrors (cfg : Settings) (fuel : Nat) (h : hasErrors (checkSource file source) = true) :
    executeSource file source cfg fuel = .error (checkSource file source) := by
  rcases hd : decode file source with m | doc
  · rw [executeSource, ofSource_error hd, checkSource_error hd]
    rfl
  · rw [checkSource_ok hd] at h ⊢
    rw [executeSource, ofSource_ok hd]
    exact execute_of_hasErrors cfg fuel h

/-- A text without errors holds a document, which is executed. -/
theorem executeSource_of_clean (h : hasErrors (checkSource file source) = false) :
    ∃ doc, decode file source = .ok doc ∧ ∀ cfg fuel, executeSource file source cfg fuel =
      .ok { warnings := checkSource file source, outcome := doc.program.execute cfg fuel doc.env } := by
  rcases hd : decode file source with m | doc
  · have herrors := hasErrors_of_error hd
    rw [h] at herrors
    cases herrors
  · refine ⟨doc, rfl, fun cfg fuel => ?_⟩
    rw [checkSource_ok hd] at h ⊢
    rw [executeSource, ofSource_ok hd]
    exact execute_of_clean cfg fuel h

end Document

namespace Command.Session

open Diagnostics (hasErrors)
open Document (decode checkSource executeSource formatSource renderSource)

variable {file : String} {source : Yaml.Source}

/-- Diagnostics that prevent execution make a command fail with the same status whatever they are. -/
theorem checkOutput_of_hasErrors (s : Session) (h : hasErrors (checkSource file source) = true) :
    s.checkOutput file source = { exit := 2, stderr := s.shown (checkSource file source) ++ "\n" } := by
  have hstatus : (Diagnostics.code (checkSource file source)).exitStatus = 2 := by
    have hcode := Document.code_checkSource h
    simp only [List.mem_cons, List.not_mem_nil, or_false] at hcode
    rcases hcode with hcode | hcode
    · rw [hcode]
      rfl
    · rw [hcode]
      rfl
  rw [checkOutput, if_pos h, report, hstatus]

/-- A text that passes the check makes the command succeed, with warnings or without. -/
theorem exit_checkOutput_of_clean (s : Session) (h : hasErrors (checkSource file source) = false) :
    (s.checkOutput file source).exit = 0 := by
  simp only [checkOutput, h]
  split
  · contradiction
  · split
    · rfl
    · split
      · rfl
      · rfl

/-- A run of a text with errors opens its trace and does nothing else. -/
theorem run_of_hasErrors {m : Type → Type} [Monad m] [LawfulMonad m] (s : Session) (host : Host m) (o : Options)
    (h : hasErrors (checkSource file source) = true) :
    s.run host o file source = (do
      match ← s.openTrace host o with
      | .error out => return out
      | .ok _ => return s.checkOutput file source) := by
  have hreport : s.checkOutput file source = s.report (checkSource file source) := by
    rw [checkOutput, if_pos h]
  rw [hreport, run]
  congr 1
  funext opened
  cases opened with
  | error out => rfl
  | ok _ =>
    rcases hd : Document.ofSource file source with ds | doc
    · simp only [checkSource, hd]
    · simp only [checkSource, hd] at h ⊢
      rw [Document.executeBy_of_hasErrors _ h]
      simp only [pure_bind]

/-- A text without a document is turned down by the formatter and the renderer as it is by the check. -/
theorem format_of_error {m : Document.Malformed} (s : Session) (h : decode file source = .error m) :
    s.renderOutput file source = s.checkOutput file source ∧
      ∀ {n : Type → Type} [Monad n] (host : Host n) (write : Bool) (path : String),
        s.format host write path file source = return s.checkOutput file source := by
  have hreport : s.checkOutput file source = s.report [(m.toFailure file).toDiagnostic] := by
    rw [checkOutput, if_pos (Document.hasErrors_of_error h), Document.checkSource_error h]
  have hboth := Document.formatSource_and_renderSource file source
  rw [h] at hboth
  obtain ⟨hformat, hrender⟩ := hboth
  refine ⟨?_, fun host write path => ?_⟩
  · rw [renderOutput, hrender, hreport]
  · rw [format, hformat, hreport]

end Command.Session

open Command (Session Options)
open Diagnostics (hasErrors)
open Document (decode checkSource executeSource formatSource renderSource)

/-- All commands agree on every text. If its diagnostics hold an error, then execution is refused with just these
diagnostics, and `check` and `run` print them and fail with the same status; `run` has opened its trace before that
and leaves it empty. Otherwise the program is executed, its warnings go along, and what may still stop it is a fault
of the program, a limit, or that nobody waits for the run. Formatting and rendering fail on the texts that hold no
document and on no others, with the one diagnostic that the check has as well. -/
theorem commands_agree (file : String) (source : Yaml.Source) :
    let ds := checkSource file source
    (hasErrors ds = true →
      (∀ cfg fuel, executeSource file source cfg fuel = .error ds) ∧
      (Failure.diagnostics ds).code ∈ [Code.decode, Code.malformed] ∧
      ∀ s : Session, s.checkOutput file source = { exit := 2, stderr := s.shown ds ++ "\n" } ∧
        ∀ {m : Type → Type} [Monad m] [LawfulMonad m] (host : Host m) (o : Options),
          s.run host o file source = (do
            match ← s.openTrace host o with
            | .error out => return out
            | .ok _ => return s.checkOutput file source)) ∧
    (hasErrors ds = false →
      (∀ s : Session, (s.checkOutput file source).exit = 0) ∧
      ∃ doc, decode file source = .ok doc ∧
        ∀ cfg fuel, executeSource file source cfg fuel =
            .ok { warnings := ds, outcome := doc.program.execute cfg fuel doc.env } ∧
          ∀ h, (doc.program.execute cfg fuel doc.env).halt? = some h →
            h.toFailure.code ∈ [Code.unbound, Code.mismatch, Code.budget, Code.cancelled]) ∧
    match decode file source with
    | .ok doc =>
      formatSource file source = .ok doc.encode ∧ renderSource file source = .ok doc.program.pretty
    | .error _ =>
      (∃ d, d.code = .decode ∧ ds = [d] ∧ formatSource file source = .error [d] ∧
        renderSource file source = .error [d]) ∧
      ∀ s : Session, s.renderOutput file source = s.checkOutput file source ∧
        ∀ {m : Type → Type} [Monad m] (host : Host m) (write : Bool) (path : String),
          s.format host write path file source = return s.checkOutput file source := by
  refine ⟨fun h => ⟨?_, ?_, fun s => ⟨?_, ?_⟩⟩, fun h => ⟨fun s => ?_, ?_⟩, ?_⟩
  · exact fun cfg fuel => Document.executeSource_of_hasErrors cfg fuel h
  · exact Document.code_checkSource h
  · exact s.checkOutput_of_hasErrors h
  · exact fun host o => s.run_of_hasErrors host o h
  · exact s.exit_checkOutput_of_clean h
  · obtain ⟨doc, hd, hexecute⟩ := Document.executeSource_of_clean h
    exact ⟨doc, hd, fun cfg fuel => ⟨hexecute cfg fuel, fun halt _ => halt.code_toFailure_mem⟩⟩
  · have hboth := Document.formatSource_and_renderSource file source
    rcases hd : decode file source with m | doc
    · rw [hd] at hboth
      refine ⟨⟨_, m.code_toFailure file, ?_, hboth⟩, fun s => s.format_of_error hd⟩
      exact Document.checkSource_error hd
    · rw [hd] at hboth
      exact hboth

end WhileLang
