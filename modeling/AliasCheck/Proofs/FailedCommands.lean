import AliasCheck.Proofs.LineDocuments
import AliasCheck.Proofs.NewFiles

/-!
# Commands that fail

A command does everything that can fail before it prints anything. When it fails, nothing has been
printed, and no file is new, missing or changed. A check has not touched the files at all; what was
to be written may have left directories behind.
-/

namespace AliasCheck

/-! ## Files that stay the same -/

namespace FileTree

/-- There are the same files in two trees. The second one may have more directories. -/
structure SameFiles (t t' : FileTree) : Prop where
  keeps : t.Keeps t'
  file : ∀ place text, get? place t' = some (file text) → get? place t = some (file text)

section SameFiles

variable {t t' t'' : FileTree}

theorem SameFiles.refl (t : FileTree) : t.SameFiles t := ⟨.refl t, fun _ _ h => h⟩

theorem SameFiles.trans (h : t.SameFiles t') (h' : t'.SameFiles t'') : t.SameFiles t'' :=
  ⟨h.keeps.trans h'.keeps, fun place text hfile => h.file place text (h'.file place text hfile)⟩

/-- Making directories leaves the files alone, also if it ends in a failure. -/
theorem sameFiles_addDirectories (added : Bool) (t : FileTree) (here names : List String) :
    t.SameFiles (addDirectories added t here names).1 := by
  induction names generalizing added t here with
  | nil => exact .refl t
  | cons name names ih =>
    rw [addDirectories]
    by_cases hself : name = selfName
    · rw [if_pos hself]
      exact ih added t here
    by_cases hparent : name = parentName
    · rw [if_neg hself, if_pos hparent]
      exact ih added t here.dropLast
    rw [if_neg hself, if_neg hparent]
    cases hhere : get? here t with
    | none => exact .refl t
    | some u =>
      cases u with
      | file text => exact .refl t
      | directory entries =>
        dsimp only
        cases hname : Table.get? name entries with
        | some v =>
          cases v with
          | file text => exact .refl t
          | directory inner => exact ih added t (here ++ [name])
        | none =>
          have hroom : t.HasRoom here name := ⟨entries, hhere, hname⟩
          have hmade : t.SameFiles (put (directory []) (here ++ [name]) t) :=
            ⟨hroom.keeps _, fun _ _ => file_of_put_directory hroom⟩
          exact hmade.trans (ih true _ _)

end SameFiles

end FileTree

/-- What is printed stays the same, and so do the files but for new directories. -/
structure Session.Quiet (s s' : Session) : Prop where
  stdout : s'.stdout = s.stdout
  stderr : s'.stderr = s.stderr
  here : s'.files.here = s.files.here
  files : s.files.root.SameFiles s'.files.root

theorem Session.Quiet.refl (s : Session) : s.Quiet s := ⟨rfl, rfl, rfl, .refl _⟩

theorem Session.Quiet.trans {s s' s'' : Session} (h : s.Quiet s') (h' : s'.Quiet s'') :
    s.Quiet s'' :=
  ⟨h'.stdout.trans h.stdout, h'.stderr.trans h.stderr, h'.here.trans h.here,
    h.files.trans h'.files⟩

/-! ## Work that fails -/

namespace Work

variable {α β : Type} {work : Work α} {more : α → Work β}

/-- However the work ends, it has been quiet. -/
def IsQuiet (work : Work α) : Prop :=
  ∀ s, match work.run s with
    | .ok _ s' | .error _ s' => s.Quiet s'

/-- If the work fails, it has been quiet. -/
def FailsQuietly (work : Work α) : Prop := ∀ s e s', work.run s = .error e s' → s.Quiet s'

/-- The work does not fail. -/
def NeverFails (work : Work α) : Prop := ∀ s, ∃ a s', work.run s = .ok a s'

theorem IsQuiet.failsQuietly (h : IsQuiet work) : FailsQuietly work := by
  intro s e s' hrun
  have hs := h s
  rw [hrun] at hs
  exact hs

theorem NeverFails.failsQuietly (h : NeverFails work) : FailsQuietly work := by
  intro s e s' hrun
  obtain ⟨a, s'', hok⟩ := h s
  cases hok.symm.trans hrun

/-- Quiet work may come in front of what can fail. -/
theorem IsQuiet.bind (h : IsQuiet work) (hmore : ∀ a, FailsQuietly (more a)) :
    FailsQuietly (work >>= more) := by
  intro s e s' hrun
  rcases run_bind_eq_error hrun with hfirst | ⟨a, s'', hfirst, hrest⟩
  · exact h.failsQuietly s e s' hfirst
  · have hs := h s
    rw [hfirst] at hs
    exact hs.trans (hmore a s'' e s' hrest)

/-- Work that does not fail may come behind what can. -/
theorem FailsQuietly.bind (h : FailsQuietly work) (hmore : ∀ a, NeverFails (more a)) :
    FailsQuietly (work >>= more) := by
  intro s e s' hrun
  rcases run_bind_eq_error hrun with hfirst | ⟨a, s'', -, hrest⟩
  · exact h s e s' hfirst
  · obtain ⟨b, last, hok⟩ := hmore a s''
    cases hok.symm.trans hrest

theorem NeverFails.bind (h : NeverFails work) (hmore : ∀ a, NeverFails (more a)) :
    NeverFails (work >>= more) := by
  intro s
  obtain ⟨a, s', hrun⟩ := h s
  rw [run_bind_of_ok hrun]
  exact hmore a s'

theorem neverFails_pure (a : α) : NeverFails (pure a) := fun s => ⟨a, s, rfl⟩

theorem neverFails_print (text : String) : NeverFails (print text) :=
  fun s => ⟨(), _, run_print text s⟩

theorem isQuiet_look (f : Files → Except RunError α) : IsQuiet (look f) := by
  intro s
  cases hf : f s.files with
  | ok a =>
    rw [run_look_of_ok hf]
    exact .refl s
  | error e =>
    rw [run_look_of_error hf]
    exact .refl s

theorem isQuiet_makeParents (path : String) : IsQuiet (makeParents path) := by
  intro s
  have hsame : s.files.root.SameFiles (s.files.addParents path).1.root ∧
      (s.files.addParents path).1.here = s.files.here := by
    rw [Files.addParents]
    cases Path.ofString? path with
    | none => exact ⟨.refl _, rfl⟩
    | some p => exact ⟨FileTree.sameFiles_addDirectories false _ _ _, rfl⟩
  obtain ⟨hroot, hhere⟩ := hsame
  cases hadd : s.files.addParents path with
  | mk files failure =>
    rw [hadd] at hroot hhere
    cases failure with
    | none =>
      rw [run_makeParents_of_ok hadd]
      exact ⟨rfl, rfl, hhere, hroot⟩
    | some error =>
      rw [run_makeParents_of_error hadd]
      exact ⟨rfl, rfl, hhere, hroot⟩

theorem failsQuietly_writeFile (path text : String) : FailsQuietly (writeFile path text) := by
  intro s e s' hrun
  cases hwrite : s.files.write path text with
  | ok files => cases (run_writeFile_of_ok hwrite).symm.trans hrun
  | error error =>
    cases (run_writeFile_of_error hwrite).symm.trans hrun
    exact .refl s

/-- Storing a text makes the directories first, so these stay when it fails. -/
theorem failsQuietly_store (path text : String) : FailsQuietly (Command.store path text) :=
  (isQuiet_makeParents path).bind fun _ => failsQuietly_writeFile path text

theorem FailsQuietly.report {work : Work Bool} {files : Files} {e : RunError}
    (h : FailsQuietly work) (he : (report files work).result = .error e) :
    ∃ files', report files work = ⟨.error e, "", "", files'⟩ ∧
      files'.here = files.here ∧ files.root.SameFiles files'.root := by
  rw [Work.report] at he ⊢
  cases hrun : work.run ⟨"", "", files⟩ with
  | ok b s =>
    rw [hrun] at he
    cases he
  | error e' s =>
    rw [hrun] at he
    cases he
    obtain ⟨hstdout, hstderr, hhere, hfiles⟩ := h _ e s hrun
    obtain ⟨stdout, stderr, files'⟩ := s
    cases hstdout
    cases hstderr
    exact ⟨files', rfl, hhere, hfiles⟩

end Work

/-! ## What makes a check fail -/

namespace Document

variable {files : Files} {linewise : Bool} {input path : String} {inputs : List String}

/-- A file of documents that cannot be used: it cannot be read, or the whole text or one of the
lines that are not blank does not hold a document. -/
inductive Spoiled (files : Files) : (linewise : Bool) → (path : String) → Prop where
  | unreadable {linewise path error} (read : files.read path = .error error) :
    Spoiled files linewise path
  | text {path text fault} (read : files.read path = .ok text)
    (parse : Json.parse text.toList = .error fault) : Spoiled files false path
  | line {path text line fault} (read : files.read path = .ok text)
    (mem : line ∈ lines text.toList) (blank : isBlankLine line = false)
    (parse : Json.parse line = .error fault) : Spoiled files true path

/-- An input that cannot be used: it is a glob that is not well-formed or that nothing fits, or it
stands for a file that cannot be used. -/
inductive Unusable (files : Files) (linewise : Bool) (input : String) : Prop where
  | badGlob {fault} (magic : input.toList.any Glob.isMagic)
    (parse : Glob.parse input = .error fault)
  | noMatch {g} (magic : input.toList.any Glob.isMagic) (parse : Glob.parse input = .ok g)
    (expand : Glob.expand files g = [])
  | spoiled {found path} (paths : paths files input = .ok found) (mem : path ∈ found)
    (spoiled : Spoiled files linewise path)

theorem exists_ofText_eq_error {text : List Char} :
    (∃ e, ofText path text = .error e) ↔ ∃ fault, Json.parse text = .error fault := by
  rw [ofText]
  cases Json.parse text with
  | ok value =>
    constructor
    · rintro ⟨_, ⟨⟩⟩
    · rintro ⟨_, ⟨⟩⟩
  | error fault => exact ⟨fun _ => ⟨fault, rfl⟩, fun _ => ⟨_, rfl⟩⟩

theorem exists_ofLine_eq_error {line : List Char} {number : Nat} :
    (∃ e, ofLine path line number = .error e) ↔ ∃ fault, Json.parse line = .error fault := by
  rw [ofLine]
  cases Json.parse line with
  | ok value =>
    constructor
    · rintro ⟨_, ⟨⟩⟩
    · rintro ⟨_, ⟨⟩⟩
  | error fault => exact ⟨fun _ => ⟨fault, rfl⟩, fun _ => ⟨_, rfl⟩⟩

/-- The documents on the lines of a text can be had unless there is something else on a line. -/
theorem exists_ofLines_eq_error {text : List Char} :
    (∃ e, ofLines path text = .error e) ↔
      ∃ line ∈ lines text, isBlankLine line = false ∧ ∃ fault, Json.parse line = .error fault := by
  rw [ofLines, exists_mapM_eq_error]
  constructor
  · rintro ⟨⟨line, number⟩, hmem, he⟩
    obtain ⟨hmem, hblank⟩ := List.mem_filter.mp hmem
    exact ⟨line, List.fst_mem_of_mem_zipIdx hmem, by simpa using hblank,
      exists_ofLine_eq_error.mp he⟩
  · rintro ⟨line, hmem, hblank, hfault⟩
    rw [← List.zipIdx_map_fst 1 (lines text)] at hmem
    obtain ⟨⟨_, number⟩, hnumber, rfl⟩ := List.mem_map.mp hmem
    exact ⟨_, List.mem_filter.mpr ⟨hnumber, by simpa using hblank⟩,
      exists_ofLine_eq_error.mpr hfault⟩

/-- The documents in a file can be had unless the file cannot be used. -/
theorem exists_ofFile_eq_error :
    (∃ e, ofFile files linewise path = .error e) ↔ Spoiled files linewise path := by
  rw [ofFile]
  cases hread : files.read path with
  | error error => exact ⟨fun _ => .unreadable hread, fun _ => ⟨_, rfl⟩⟩
  | ok text =>
    cases linewise with
    | true =>
      dsimp only
      rw [if_pos rfl, exists_ofLines_eq_error]
      constructor
      · rintro ⟨line, hmem, hblank, fault, hparse⟩
        exact .line hread hmem hblank hparse
      · rintro (⟨hread'⟩ | _ | ⟨hread', hmem, hblank, hparse⟩)
        · cases hread.symm.trans hread'
        · cases hread.symm.trans hread'
          exact ⟨_, hmem, hblank, _, hparse⟩
    | false =>
      dsimp only
      rw [if_neg Bool.false_ne_true, exists_map_eq_error, exists_ofText_eq_error]
      constructor
      · rintro ⟨fault, hparse⟩
        exact .text hread hparse
      · rintro (⟨hread'⟩ | ⟨hread', hparse⟩ | _)
        · cases hread.symm.trans hread'
        · cases hread.symm.trans hread'
          exact ⟨_, hparse⟩

/-- The paths that an input stands for can be had unless it is a glob that is of no use. -/
theorem exists_paths_eq_error :
    (∃ e, paths files input = .error e) ↔ input.toList.any Glob.isMagic ∧
      ((∃ fault, Glob.parse input = .error fault) ∨
        ∃ g, Glob.parse input = .ok g ∧ Glob.expand files g = []) := by
  rw [paths]
  split
  · rename_i hmagic
    cases hglob : Glob.parse input with
    | error fault => exact ⟨fun _ => ⟨hmagic, .inl ⟨fault, rfl⟩⟩, fun _ => ⟨_, rfl⟩⟩
    | ok g =>
      dsimp only
      cases hexpand : Glob.expand files g with
      | nil => exact ⟨fun _ => ⟨hmagic, .inr ⟨g, rfl, hexpand⟩⟩, fun _ => ⟨_, rfl⟩⟩
      | cons path more =>
        refine ⟨nofun, ?_⟩
        rintro ⟨-, ⟨fault, ⟨⟩⟩ | ⟨g', ⟨⟩, hnil⟩⟩
        cases hexpand.symm.trans hnil
  · rename_i hmagic
    exact ⟨nofun, fun h => absurd h.1 hmagic⟩

/-- The documents that inputs stand for can be had unless one of the inputs cannot be used. -/
theorem exists_load_eq_error :
    (∃ e, load files linewise inputs = .error e) ↔
      ∃ input ∈ inputs, Unusable files linewise input := by
  rw [load, exists_bind_eq_error, exists_mapM_eq_error]
  constructor
  · rintro (⟨input, hinput, he⟩ | ⟨found, hfound, he⟩)
    · obtain ⟨hmagic, ⟨fault, hfault⟩ | ⟨g, hglob, hexpand⟩⟩ := exists_paths_eq_error.mp he
      · exact ⟨input, hinput, .badGlob hmagic hfault⟩
      · exact ⟨input, hinput, .noMatch hmagic hglob hexpand⟩
    · rcases exists_bind_eq_error.mp he with hfiles | ⟨_, -, _, ⟨⟩⟩
      obtain ⟨path, hpath, hfile⟩ := exists_mapM_eq_error.mp hfiles
      obtain ⟨part, hpart, hmem⟩ := List.mem_flatten.mp hpath
      obtain ⟨input, hinput, hpaths⟩ := exists_of_mem_mapM hfound hpart
      exact ⟨input, hinput, .spoiled hpaths hmem (exists_ofFile_eq_error.mp hfile)⟩
  · rintro ⟨input, hinput, hunusable⟩
    cases hfound : inputs.mapM (paths files) with
    | error e => exact .inl (exists_mapM_eq_error.mp ⟨e, hfound⟩)
    | ok found =>
      obtain ⟨part, hpart, hpaths⟩ := exists_mem_of_forall₂ (mapM_eq_ok.mp hfound) hinput
      have hno : ¬ ∃ e, paths files input = .error e := by
        rintro ⟨e, he⟩
        cases hpaths.symm.trans he
      rw [exists_paths_eq_error] at hno
      cases hunusable with
      | badGlob hmagic hfault => exact absurd ⟨hmagic, .inl ⟨_, hfault⟩⟩ hno
      | noMatch hmagic hglob hexpand => exact absurd ⟨hmagic, .inr ⟨_, hglob, hexpand⟩⟩ hno
      | spoiled hpaths' hmem hspoiled =>
        cases hpaths.symm.trans hpaths'
        have hfiles := exists_mapM_eq_error.mpr
          ⟨_, List.mem_flatten.mpr ⟨part, hpart, hmem⟩, exists_ofFile_eq_error.mpr hspoiled⟩
        exact .inr ⟨found, rfl, exists_bind_eq_error.mpr (.inl hfiles)⟩

end Document

/-! ## Commands that fail -/

namespace Origin

variable {files : Files} {origin : Origin}

/-- A source or a registry that cannot be used: it cannot be read, or it does not declare types. -/
inductive Unusable (files : Files) : (origin : Origin) → Prop where
  | unreadable {origin error} (read : files.read origin.path = .error error) :
    Unusable files origin
  | badSource {path text error} (read : files.read path = .ok text)
    (parse : Registry.ofSource text = .error error) : Unusable files (.source path)
  | badRegistry {path text error} (read : files.read path = .ok text)
    (parse : Registry.parse text.toList = .error error) : Unusable files (.registry path)

/-- What is made of the text of a source or a registry. -/
def decode : Origin → String → Except RunError Registry
  | source _, text => (Registry.ofSource text).mapError RunError.badSource
  | registry _, text => (Registry.parse text.toList).mapError (RunError.badRegistry text.toList)

theorem ofOrigin_eq (files : Files) (origin : Origin) : Registry.ofOrigin files origin
    = (files.read origin.path).mapError (RunError.unreadable origin.path) >>= origin.decode := by
  cases origin <;> rfl

theorem unusable_of_decode {text : String} (hread : files.read origin.path = .ok text)
    (h : ∃ e, origin.decode text = .error e) : origin.Unusable files := by
  cases origin with
  | source path =>
    obtain ⟨error, hparse⟩ := exists_mapError_eq_error.mp h
    exact .badSource hread hparse
  | registry path =>
    obtain ⟨error, hparse⟩ := exists_mapError_eq_error.mp h
    exact .badRegistry hread hparse

/-- The types for a check can be had unless it takes them from something that cannot be used. -/
theorem exists_ofOrigin_eq_error :
    (∃ e, Registry.ofOrigin files origin = .error e) ↔ origin.Unusable files := by
  simp only [ofOrigin_eq, exists_bind_eq_error, exists_mapError_eq_error, mapError_eq_ok]
  constructor
  · rintro (⟨error, hread⟩ | ⟨text, hread, hdecode⟩)
    · exact .unreadable hread
    · exact unusable_of_decode hread hdecode
  · rintro (⟨hread⟩ | ⟨hread, hparse⟩ | ⟨hread, hparse⟩)
    · exact .inl ⟨_, hread⟩
    · exact .inr ⟨_, hread, exists_mapError_eq_error.mpr ⟨_, hparse⟩⟩
    · exact .inr ⟨_, hread, exists_mapError_eq_error.mpr ⟨_, hparse⟩⟩

end Origin

namespace CheckOptions

variable {options : CheckOptions} {files : Files}

/-- Something that a check needs and that cannot be had, wherever it stands. -/
inductive Lacks (options : CheckOptions) (files : Files) : Prop where
  | badOrigin (unusable : options.origin.Unusable files)
  | unknownType {r} (registry : Registry.ofOrigin files options.origin = .ok r)
    (missing : Table.get? options.typeName r = none)
  | badSchema {r s error} (registry : Registry.ofOrigin files options.origin = .ok r)
    (found : Table.get? options.typeName r = some s)
    (compile : Validator.compile options.checks s = .error error)
  | badInput {input} (mem : input ∈ options.inputs)
    (unusable : Document.Unusable files options.linewise input)

theorem exists_validator_eq_error :
    (∃ e, options.validator files = .error e) ↔ options.origin.Unusable files ∨
      ∃ r, Registry.ofOrigin files options.origin = .ok r ∧
        (Table.get? options.typeName r = none ∨ ∃ s, Table.get? options.typeName r = some s ∧
          ∃ error, Validator.compile options.checks s = .error error) := by
  rw [validator, exists_bind_eq_error, Origin.exists_ofOrigin_eq_error]
  refine or_congr_right (exists_congr fun r => and_congr_right fun _ => ?_)
  cases Table.get? options.typeName r with
  | none => exact ⟨fun _ => .inl rfl, fun _ => ⟨_, rfl⟩⟩
  | some s =>
    refine exists_mapError_eq_error.trans ⟨fun h => .inr ⟨s, rfl, h⟩, ?_⟩
    rintro (hnone | ⟨_, hsome, h⟩)
    · cases hnone
    · cases hsome
      exact h

/-- A check has findings unless it lacks something. -/
theorem exists_findings_eq_error :
    (∃ e, options.findings files = .error e) ↔ options.Lacks files := by
  rw [findings, exists_bind_eq_error]
  constructor
  · rintro (he | ⟨v, -, he⟩)
    · rcases exists_validator_eq_error.mp he with horigin | ⟨r, hr, hnone | ⟨s, hs, error, herror⟩⟩
      · exact .badOrigin horigin
      · exact .unknownType hr hnone
      · exact .badSchema hr hs herror
    · rcases exists_bind_eq_error.mp he with hload | ⟨_, -, _, ⟨⟩⟩
      obtain ⟨input, hmem, hunusable⟩ := Document.exists_load_eq_error.mp hload
      exact .badInput hmem hunusable
  · intro hlacks
    cases hlacks with
    | badOrigin horigin => exact .inl (exists_validator_eq_error.mpr (.inl horigin))
    | unknownType hr hnone =>
      exact .inl (exists_validator_eq_error.mpr (.inr ⟨_, hr, .inl hnone⟩))
    | badSchema hr hs herror =>
      exact .inl (exists_validator_eq_error.mpr (.inr ⟨_, hr, .inr ⟨_, hs, _, herror⟩⟩))
    | badInput hmem hunusable =>
      cases hvalidator : options.validator files with
      | error e => exact .inl ⟨e, rfl⟩
      | ok v =>
        have hload := Document.exists_load_eq_error.mpr ⟨_, hmem, hunusable⟩
        exact .inr ⟨v, rfl, exists_bind_eq_error.mpr (.inl hload)⟩

end CheckOptions

namespace Command

variable {painted : Bool} {files : Files}

/-- Writing out types prints them last if at all. -/
theorem writeTypes_eq_error {source : String} {out : Option String} {e : RunError}
    (h : (writeTypes files source out).result = .error e) :
    ∃ files', writeTypes files source out = ⟨.error e, "", "", files'⟩ ∧
      files'.here = files.here ∧ files.root.SameFiles files'.root := by
  refine Work.FailsQuietly.report ((Work.isQuiet_look _).bind fun r => ?_) h
  cases out with
  | some path => exact (Work.failsQuietly_store path _).bind fun _ => Work.neverFails_pure true
  | none =>
    exact ((Work.neverFails_print _).bind fun _ => Work.neverFails_pure true).failsQuietly

theorem checkDocuments_eq_error_iff {options : CheckOptions} {e : RunError} :
    (checkDocuments painted files options).result = .error e ↔
      options.findings files = .error e := by
  cases hfound : options.findings files with
  | error e' =>
    rw [checkDocuments_eq_error hfound]
    constructor <;> rintro ⟨⟩ <;> rfl
  | ok found =>
    rw [checkDocuments_eq_ok hfound]
    exact ⟨nofun, nofun⟩

/-- A check fails if and only if something is lacking that it needs, wherever among the inputs that
is. Then nothing is printed, whatever was found in other documents, and the files are what they
were. Where types cannot be written out, nothing is printed either, and there are the same files
with the same texts. -/
theorem run_eq_error (painted : Bool) (files : Files) :
    (∀ options, ((∃ e, (run painted files (.check options)).result = .error e) ↔
        options.Lacks files) ∧
      ∀ e, (run painted files (.check options)).result = .error e →
        run painted files (.check options) = ⟨.error e, "", "", files⟩) ∧
    ∀ source out e, (run painted files (.types source out)).result = .error e →
      ∃ files', run painted files (.types source out) = ⟨.error e, "", "", files'⟩ ∧
        files'.here = files.here ∧ files.root.SameFiles files'.root := by
  refine ⟨fun options => ⟨?_, fun e he => ?_⟩, fun source out e he => writeTypes_eq_error he⟩
  · rw [← CheckOptions.exists_findings_eq_error]
    exact exists_congr fun e => checkDocuments_eq_error_iff
  · exact checkDocuments_eq_error (checkDocuments_eq_error_iff.mp he)

/-- The first document is invalid, the second one is no document. The path leads to a directory that
is missing, and the one above it is made in vain. -/
theorem run_eq_error_example :
    let files : Files := ⟨.directory [("work", .directory [
      ("s.js", .file (some "type A = \x7b k: ?number \x7d")),
      ("a.json", .file (some "\x7b\"k\":\"1\"\x7d")), ("b.json", .file (some "\x7b\"k\":"))])],
      ["work"]⟩
    let options : CheckOptions :=
      ⟨.source "s.js", "A", [], [], [], false, ["a.json", "b.json"], true⟩
    (run false files (.check { options with inputs := ["a.json"] })).result = .ok false ∧
      (∃ e, run false files (.check options) = ⟨.error e, "", "", files⟩) ∧
      ∃ e files', run false files (.types "s.js" (some "x/y/")) = ⟨.error e, "", "", files'⟩ ∧
        files.root.SameFiles files'.root ∧ files.hasDirectory "x" = false ∧
        files'.hasDirectory "x" = true := by
  intro files options
  have hsource : Registry.ofSourceFile files "s.js"
      = .ok [("A", .object [⟨"k", (Schema.value "number").orNull, false⟩])] := by
    have hread : files.read "s.js" = .ok "type A = \x7b k: ?number \x7d" := by decide +kernel
    have hparse : Registry.ofSource "type A = \x7b k: ?number \x7d"
        = .ok [("A", .object [⟨"k", (Schema.value "number").orNull, false⟩])] := by
      decide +kernel
    exact Registry.ofSourceFile_eq_ok hread hparse
  obtain ⟨hcheck, htypes⟩ := run_eq_error false files
  refine ⟨?_, ?_, ?_⟩
  · have hread : files.read "a.json" = .ok (Json.object [("k", .string "1")]).compact := by
      decide +kernel
    have hheld : (Json.object [("k", .string "1")]).IsHeld :=
      ⟨⟨by decide, trivial, trivial⟩, ⟨trivial, trivial⟩, by decide⟩
    have hpaths : Document.paths files "a.json" = .ok ["a.json"] := rfl
    have hload := Document.load_eq_ok hpaths (Document.ofFile_compact hheld hread)
    have hvalidator : { options with inputs := ["a.json"] }.validator files
        = .ok [⟨"k", Validator.guarded true (Check.ofType "number")⟩] :=
      CheckOptions.validator_eq_ok hsource rfl rfl
    have hfindings := CheckOptions.findings_eq_ok hvalidator hload
    show (checkDocuments false files _).result = _
    rw [checkDocuments_eq_ok hfindings]
    rfl
  · have hlacks : options.Lacks files := by
      have hread : files.read "b.json" = .ok "\x7b\"k\":" := by decide +kernel
      have hparse : Json.parse "\x7b\"k\":".toList = .error ⟨.endInValue, 5⟩ :=
        rfl
      exact .badInput (List.mem_cons_of_mem _ List.mem_cons_self)
        (.spoiled rfl List.mem_cons_self (.text hread hparse))
    obtain ⟨e, he⟩ := (hcheck options).1.mpr hlacks
    exact ⟨e, (hcheck options).2 e he⟩
  · have hstore : ∃ files', writeTypes files "s.js" (some "x/y/") =
        ⟨.error (.unwritable "x/y/" .isDirectory), "", "", files'⟩ ∧
          files'.hasDirectory "x" = true := by
      have hlook : (Work.look fun files => Registry.ofSourceFile files "s.js").run ⟨"", "", files⟩
          = .ok _ ⟨"", "", files⟩ := Work.run_look_of_ok hsource
      rw [writeTypes, Work.report, Work.run_bind_of_ok hlook]
      exact ⟨_, rfl, by decide⟩
    obtain ⟨made, hmade, hdirectory⟩ := hstore
    obtain ⟨files', hfiles', -, hsame⟩ :=
      htypes "s.js" (some "x/y/") _ (congrArg Report.result hmade)
    cases hmade.symm.trans hfiles'
    exact ⟨_, _, hfiles', hsame, by decide, hdirectory⟩

end Command
end AliasCheck
