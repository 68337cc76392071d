import AliasCheck.Command.Run

/-!
# Work in a session

What each kind of work does to the session in which it is done, what comes of doing one piece of
work after another, and what is left of it by a command as a whole.
-/

namespace AliasCheck
namespace Work

variable {α β : Type} {work : Work α} {more : α → Work β} {s s' : Session} {a : α} {e : RunError}

theorem run_bind_of_ok (h : work.run s = .ok a s') : (work >>= more).run s = (more a).run s' := by
  rw [EStateM.run_bind, h]

theorem run_bind_of_error (h : work.run s = .error e s') :
    (work >>= more).run s = .error e s' := by
  rw [EStateM.run_bind, h]

/-- Work that is done in two parts fails in one of them. -/
theorem run_bind_eq_error (h : (work >>= more).run s = .error e s') :
    work.run s = .error e s' ∨
      ∃ a s'', work.run s = .ok a s'' ∧ (more a).run s'' = .error e s' := by
  cases hwork : work.run s with
  | ok a s'' =>
    rw [run_bind_of_ok hwork] at h
    exact .inr ⟨a, s'', rfl, h⟩
  | error e' s'' =>
    rw [run_bind_of_error hwork] at h
    cases h
    exact .inl rfl

theorem run_print (text : String) (s : Session) :
    (print text).run s = .ok () { s with stdout := s.stdout ++ text } := rfl

theorem run_note (text : String) (s : Session) :
    (note text).run s = .ok () { s with stderr := s.stderr ++ text } := rfl

theorem run_look_of_ok {f : Files → Except RunError α} (h : f s.files = .ok a) :
    (look f).run s = .ok a s := by
  show (ofExcept (f s.files) : Work α).run s = _
  rw [h]
  rfl

theorem run_look_of_error {f : Files → Except RunError α} (h : f s.files = .error e) :
    (look f).run s = .error e s := by
  show (ofExcept (f s.files) : Work α).run s = _
  rw [h]
  rfl

section Changes

variable {files : Files} {path text : String} {error : FileError}

theorem run_makeParents_of_ok (h : s.files.addParents path = (files, none)) :
    (makeParents path).run s = .ok () { s with files := files } := by
  rw [makeParents, run_bind_of_ok (EStateM.run_get s), h, run_bind_of_ok (EStateM.run_modify _ s)]
  rfl

theorem run_makeParents_of_error (h : s.files.addParents path = (files, some error)) :
    (makeParents path).run s = .error (.noDirectory error) { s with files := files } := by
  rw [makeParents, run_bind_of_ok (EStateM.run_get s), h, run_bind_of_ok (EStateM.run_modify _ s)]
  rfl

theorem run_writeFile_of_ok (h : s.files.write path text = .ok files) :
    (writeFile path text).run s = .ok () { s with files := files } := by
  have hlook : (look fun files => (files.write path text).mapError (RunError.unwritable path)).run s
      = .ok files s := run_look_of_ok (by rw [h]; rfl)
  rw [writeFile, run_bind_of_ok hlook]
  rfl

theorem run_writeFile_of_error (h : s.files.write path text = .error error) :
    (writeFile path text).run s = .error (.unwritable path error) s := by
  have hlook : (look fun files => (files.write path text).mapError (RunError.unwritable path)).run s
      = .error (.unwritable path error) s := run_look_of_error (by rw [h]; rfl)
  rw [writeFile, run_bind_of_error hlook]

end Changes

/-- What is printed piece by piece is printed as a whole. -/
theorem run_forM_print (text : α → String) (xs : List α) (s : Session) :
    (xs.forM fun x => print (text x)).run s
      = .ok () { s with stdout := s.stdout ++ String.join (xs.map text) } := by
  induction xs generalizing s with
  | nil =>
    rw [List.map_nil, String.join_nil, String.append_empty]
    rfl
  | cons x xs ih =>
    rw [List.forM_eq_forM, List.forM_cons, run_bind_of_ok (run_print _ s), ← List.forM_eq_forM, ih,
      List.map_cons, String.join_cons, ← String.append_assoc]

end Work

/-! ## What commands leave -/

namespace Command

variable {files files' : Files} {painted : Bool} {options : CheckOptions}

theorem writeTypes_eq_ok {source path : String} {r : Registry}
    (hsource : Registry.ofSourceFile files source = .ok r)
    (hstore : (store path r.toJson.pretty).run ⟨"", "", files⟩ = .ok () ⟨"", "", files'⟩) :
    run painted files (.types source (some path)) = ⟨.ok true, "", "", files'⟩ := by
  have hlook : (Work.look fun files => Registry.ofSourceFile files source).run ⟨"", "", files⟩
      = .ok r ⟨"", "", files⟩ := Work.run_look_of_ok hsource
  rw [run, writeTypes, Work.report, Work.run_bind_of_ok hlook, Work.run_bind_of_ok hstore]
  rfl

theorem checkDocuments_eq_ok {found : List (Document × List KeyedError)}
    (h : options.findings files = .ok found) :
    checkDocuments painted files options = {
      result := .ok (invalidCount found = 0)
      stdout := String.join (found.map fun finding =>
        findingText painted options.verbose finding.1.label finding.2)
      stderr := s!"{invalidCount found} of {found.length} documents invalid\n"
      files } := by
  have hlook : (Work.look options.findings).run ⟨"", "", files⟩ = .ok found ⟨"", "", files⟩ :=
    Work.run_look_of_ok h
  have hprint := Work.run_forM_print (fun finding : Document × List KeyedError =>
    findingText painted options.verbose finding.1.label finding.2) found ⟨"", "", files⟩
  rw [checkDocuments, Work.report, Work.run_bind_of_ok hlook, Work.run_bind_of_ok hprint,
    Work.run_bind_of_ok (Work.run_note _ _), String.empty_append, String.empty_append]
  rfl

theorem checkDocuments_eq_error {error : RunError} (h : options.findings files = .error error) :
    checkDocuments painted files options = ⟨.error error, "", "", files⟩ := by
  have hlook : (Work.look options.findings).run ⟨"", "", files⟩ = .error error ⟨"", "", files⟩ :=
    Work.run_look_of_error h
  rw [checkDocuments, Work.report, Work.run_bind_of_error hlook]

end Command
end AliasCheck
