import Vassal.Host.Memory
import Vassal.Program.Run
import Vassal.Proofs.Host.FileTree
import Vassal.Proofs.Project.Environment

-- The command that compiles a project, on a machine in memory: the whole document arrives where it
-- was asked for, or nothing happens.
--
-- The project is found, read, checked and built without touching a file, and its text is complete
-- before one is opened. What is found on the way depends on the machine alone, so each of these
-- stages is given as a function of it.

namespace Vassal

open Host

-- What a program that may fail does on a machine.
def perform {α : Type} (x : ExceptT Failure (StateM Memory) α) (s : Memory) :
    Except Failure α × Memory :=
  x.run.run s

section Perform

variable {α β : Type} {s : Memory}

theorem perform_bind (x : ExceptT Failure (StateM Memory) α)
    (f : α → ExceptT Failure (StateM Memory) β) :
    perform (x >>= f) s = match perform x s with
      | (.ok a, s') => perform (f a) s'
      | (.error e, s') => (.error e, s') := by
  unfold perform
  rw [ExceptT.run_bind, StateT.run_bind]
  rcases x.run.run s with ⟨a | e, s'⟩ <;> rfl

@[simp]
theorem perform_pure (a : α) : perform (pure a) s = (.ok a, s) :=
  rfl

@[simp]
theorem perform_isThere (path : RawPath) :
    perform (Host.isThere path) s = (.ok (s.tree.isThere path), s) :=
  rfl

@[simp]
theorem perform_read (path : RawPath) : perform (Host.read path) s = (.ok (s.tree.read path), s) :=
  rfl

end Perform

namespace Host.Memory

variable (s : Memory)

-- The project among the user's settings, wherever the machine has them.
def userProject : Option RawPath :=
  (s.settings s.env).map fun directory =>
    RawPath.join (RawPath.join directory (.ofText programName)) projectFile

-- The paths at which a project is looked for, the most preferred first.
def usualProjects : List RawPath :=
  projectFile :: s.userProject.toList

def project? (given : Option RawPath) : Option RawPath :=
  given <|> s.usualProjects.find? s.tree.isThere

-- The document of the project: its file is read and decoded, and the project is built.
def document? (given : Option RawPath) : Option Document := do
  let path ← s.project? given
  let bytes ← (s.tree.read path).toOption
  let project ← (Project.ofBytes bytes).toOption
  (project.build s.env).toOption

def compiled? (given : Option RawPath) : Option String := do
  (← s.document? given).render.toOption

end Host.Memory

section Stages

variable {s : Memory}

theorem perform_firstThere (paths : List RawPath) :
    perform (firstThere paths) s = (.ok (paths.find? s.tree.isThere), s) := by
  induction paths with
  | nil => rfl
  | cons path rest ih =>
    rw [firstThere, perform_bind, perform_isThere, List.find?_cons]
    cases hthere : s.tree.isThere path with
    | true => simp
    | false => simpa using ih

theorem perform_locate (given : Option RawPath) :
    perform (locate given) s = match s.project? given with
      | some path => (.ok path, s)
      | none => (.error .noProject, s) := by
  cases given with
  | some path => rfl
  | none =>
    have husual : perform userProject s = (.ok s.userProject, s) := rfl
    rw [locate, perform_bind, husual]
    dsimp only
    rw [perform_bind, perform_firstThere]
    unfold Memory.project? Memory.usualProjects
    cases (projectFile :: s.userProject.toList).find? s.tree.isThere <;> rfl

theorem perform_loadProject (path : RawPath) :
    perform (loadProject path) s = match s.tree.read path with
      | .ok bytes => ((Project.ofBytes bytes).mapError (.load path), s)
      | .error fault => (.error (.load path (.file fault)), s) := by
  rw [loadProject, perform_bind, perform_read]
  cases s.tree.read path with
  | error fault => rfl
  | ok bytes =>
    dsimp only
    cases Project.ofBytes bytes <;> rfl

theorem perform_mapM {α β : Type} {f : α → ExceptT Failure (StateM Memory) β} {g : α → β}
    (h : ∀ a, perform (f a) s = (.ok (g a), s)) (entries : List α) :
    perform (entries.mapM f) s = (.ok (entries.map g), s) := by
  induction entries with
  | nil => rfl
  | cons a rest ih =>
    rw [List.mapM_cons, perform_bind, h]
    dsimp only
    rw [perform_bind, ih]
    rfl

-- All that is read of the environment is in the copy.
theorem perform_environmentOf (keys : List String) :
    ∃ env, perform (environmentOf keys) s = (.ok env, s) ∧ ∀ key ∈ keys, env key = s.env key := by
  have hcopy : ∀ key,
      perform (do return (key, ← Host.readVariable key)) s = (.ok (key, s.env key), s) :=
    fun _ => rfl
  let copies := keys.map fun key => (key, s.env key)
  refine ⟨fun key => (copies.lookup key).join, ?_, fun key hkey => ?_⟩
  · rw [environmentOf, perform_bind, perform_mapM hcopy]
    rfl
  · simp [copies, Ascending.lookup_table _ hkey]

theorem perform_buildDocument (path : RawPath) (project : Project) :
    perform (buildDocument path project) s =
      ((project.build s.env).mapError (.build path), s) := by
  obtain ⟨env, hrun, hagree⟩ := perform_environmentOf project.copiedVariables
  rw [buildDocument, perform_bind, hrun]
  dsimp only
  rw [project.build_congr hagree]
  cases project.build s.env <;> rfl

end Stages

-- The path of a new temporary file.
def Host.Memory.temporaryPath (s : Memory) : RawPath :=
  s.freshPath (.ofText "uwsgiconf-") (.ofText ".ini")

-- The file that the text of a document goes to, if it goes to a file.
def Destination.target? (s : Memory) : Destination → Option RawPath
  | output => none
  | file path => some path
  | temporary => some s.temporaryPath

-- The file at `path` holds the text, and nothing else has changed.
structure Host.Memory.Written (s : Memory) (path : RawPath) (text : String) (after : Memory) :
    Prop where
  content : after.tree.read path = .ok text.toUTF8
  others : ∃ place, s.tree.place path = .ok place ∧
    ∀ other ≠ place, after.tree.files.lookup other = s.tree.files.lookup other
  rest : after = { s with tree := { s.tree with files := after.tree.files } }

namespace Destination

-- The path and a line feed are printed. These are the very bytes of the path if it is a text.
structure Prints (path : RawPath) (out : String) : Prop where
  display : out = ByteString.display path ++ "\n"
  verbatim : ByteString.ofText out = path ++ .ofText "\n" ↔ ∃ name, path = .ofText name

-- What is printed once a text has arrived, and what has become of the machine.
def Delivered (destination : Destination) (s : Memory) (text out : String) (after : Memory) :
    Prop :=
  match destination.target? s with
  | none => out = text ∧ after = s
  | some path => Prints path out ∧ s.Written path text after

theorem prints_display (path : RawPath) : Prints path (ByteString.display path ++ "\n") := by
  refine ⟨rfl, ?_⟩
  rw [ByteString.ofText_append, List.append_cancel_right_eq, ByteString.ofText_display_iff]

-- The file cannot be made.
def Refuses (destination : Destination) (s : Memory) (text : String) : Prop :=
  ∃ path fault, destination.target? s = some path ∧ s.tree.write path text.toUTF8 = .error fault

-- The two ways in which asking for a text can end.
inductive Settled (destination : Destination) (s : Memory) :
    Option String → Except Failure String × Memory → Prop
  | delivered {text out : String} {after : Memory} :
    destination.Delivered s text out after → Settled destination s (some text) (.ok out, after)
  | failed {text? : Option String} {failure : Failure} :
    (∀ text, text? = some text → destination.Refuses s text) →
      Settled destination s text? (.error failure, s)

end Destination

section Delivery

variable {s : Memory} {d : Document} {text : String}

theorem written_of_write {path : RawPath} {tree : FileTree}
    (h : s.tree.write path text.toUTF8 = .ok tree) : s.Written path text { s with tree } := by
  obtain ⟨place, hplace, hnode, rfl⟩ := FileTree.write_eq_ok h
  exact ⟨FileTree.read_write h, ⟨place, hplace, fun _ => FileTree.lookup_put_of_ne⟩, rfl⟩

theorem perform_write (path : RawPath) (bytes : ByteArray) :
    perform (Host.write path bytes) s = match s.tree.write path bytes with
      | .ok tree => (.ok (.ok ()), { s with tree })
      | .error fault => (.ok (.error fault), s) := by
  have hrun : perform (Host.write path bytes) s =
      (.ok (Memory.writeTo path bytes s).1, (Memory.writeTo path bytes s).2) :=
    rfl
  rw [hrun, Memory.writeTo]
  cases s.tree.write path bytes <;> rfl

theorem perform_writeNew (start ending : ByteString) (bytes : ByteArray) :
    perform (Host.writeNew start ending bytes) s =
      match s.tree.write (s.freshPath start ending) bytes with
      | .ok tree => (.ok (.ok (s.freshPath start ending)), { s with tree })
      | .error fault => (.ok (.error fault), s) := by
  have hrun : perform (Host.writeNew start ending bytes) s =
      let path := s.freshPath start ending
      let (result, after) := Memory.writeTo path bytes s
      (.ok (result.map fun _ => path), after) :=
    rfl
  rw [hrun]
  unfold Memory.writeTo
  dsimp only
  cases s.tree.write (s.freshPath start ending) bytes <;> rfl

theorem perform_save (h : d.render = .ok text) (path : Option RawPath) :
    perform (d.save path) s =
      let target := path.getD s.temporaryPath
      match s.tree.write target text.toUTF8 with
      | .ok tree => (.ok (.ok target), { s with tree })
      | .error fault => (.ok (.error (.file fault)), s) := by
  rw [Document.save, h]
  cases path with
  | none =>
    dsimp only [Option.getD]
    rw [perform_bind, perform_writeNew, ← Memory.temporaryPath]
    cases s.tree.write s.temporaryPath text.toUTF8 <;> rfl
  | some path =>
    dsimp only [Option.getD]
    rw [perform_bind, perform_write]
    cases s.tree.write path text.toUTF8 <;> rfl

-- A file is opened only for a text that is complete.
theorem settled_saveDocument (d : Document) (destination : Destination) (path : Option RawPath)
    (htarget : destination.target? s = some (path.getD s.temporaryPath)) :
    destination.Settled s d.render.toOption (perform (saveDocument d path) s) := by
  rw [saveDocument, perform_bind]
  cases hrender : d.render with
  | error e =>
    have hsave : perform (d.save path) s = (.ok (.error e), s) := by
      rw [Document.save, hrender]
      rfl
    rw [hsave]
    exact .failed fun _ htext => nomatch htext
  | ok text =>
    rw [perform_save hrender path]
    dsimp only
    cases hwrite : s.tree.write (path.getD s.temporaryPath) text.toUTF8 with
    | ok tree =>
      refine .delivered ?_
      rw [Destination.Delivered, htarget]
      exact ⟨Destination.prints_display _, written_of_write hwrite⟩
    | error fault =>
      refine .failed fun other htext => ?_
      obtain rfl := Option.some.inj htext
      exact ⟨_, fault, htarget, hwrite⟩

theorem settled_deliver (d : Document) (destination : Destination) :
    destination.Settled s d.render.toOption (perform (deliver d destination) s) := by
  cases destination with
  | output =>
    unfold deliver
    cases d.render with
    | error e => exact .failed fun _ htext => nomatch htext
    | ok text => exact .delivered ⟨rfl, rfl⟩
  | file path => exact settled_saveDocument d _ (some path) rfl
  | temporary => exact settled_saveDocument d _ none rfl

-- Without a document there is no text, and with one its text is delivered.
theorem settled_compileProject (given : Option RawPath) (destination : Destination) :
    destination.Settled s (s.compiled? given) (perform (compileProject given destination) s) := by
  unfold Memory.compiled? Memory.document? compileProject
  rw [perform_bind, perform_locate]
  cases s.project? given with
  | none => exact .failed fun _ htext => nomatch htext
  | some path =>
    dsimp only [Option.bind_eq_bind, Option.bind_some]
    rw [perform_bind, perform_loadProject]
    cases s.tree.read path with
    | error fault => exact .failed fun _ htext => nomatch htext
    | ok bytes =>
      dsimp only [Except.toOption, Option.bind_some]
      cases Project.ofBytes bytes with
      | error e => exact .failed fun _ htext => nomatch htext
      | ok project =>
        dsimp only [Except.mapError, Option.bind_some]
        rw [perform_bind, perform_buildDocument]
        cases project.build s.env with
        | error e => exact .failed fun _ htext => nomatch htext
        | ok d => exact settled_deliver d destination

end Delivery

-- A `compile` line that is in order asks for help or for a project.
theorem CompileLine.cases_of_read? {l : CompileLine} {options : List ByteString} {request : Request}
    (h : l.read? options = some request) :
    request = .help .compile ∨ ∃ given destination, request = .compile given destination := by
  have hend : ∀ l : CompileLine, l.request? = some request →
      request = .help .compile ∨ ∃ given destination, request = .compile given destination := by
    intro l hl
    unfold request? at hl
    split at hl <;> cases hl <;> exact .inr ⟨_, _, rfl⟩
  fun_induction CompileLine.read? l options with
  | case1 l | case8 l => exact hend l h
  | case2 => exact .inl (Option.some.inj h).symm
  | case3 | case4 | case5 =>
    rename_i ih
    obtain ⟨l', -, hrest⟩ := Option.bind_eq_some_iff.mp h
    exact ih l' hrest
  | case6 | case7 =>
    -- The value is the next argument.
    rename_i ih
    obtain ⟨value, -, hnext⟩ := Option.bind_eq_some_iff.mp h
    obtain ⟨l', -, hrest⟩ := Option.bind_eq_some_iff.mp hnext
    exact ih l' hrest
  | case9 => cases h

-- A request for a project succeeds if there is a text and it can go where it was asked for, and
-- then the text has arrived there. It fails otherwise, prints nothing and leaves the machine as it
-- was.
theorem run_compile_or_nothing (given : Option RawPath) (destination : Destination) (s : Memory) :
    ∃ outcome after,
      ((Request.compile given destination).run : StateM Memory Outcome).run s = (outcome, after) ∧
      ((outcome.code = 0 ∧ ∃ text, s.compiled? given = some text ∧
        destination.Delivered s text outcome.out after) ∨
      (outcome.code ≠ 0 ∧ outcome.out = "" ∧ after = s ∧
        ∀ text, s.compiled? given = some text → destination.Refuses s text)) := by
  refine ⟨.ofResult (perform (compileProject given destination) s).1,
    (perform (compileProject given destination) s).2, rfl, ?_⟩
  have hsettled := settled_compileProject (s := s) given destination
  revert hsettled
  generalize perform (compileProject given destination) s = result
  generalize s.compiled? given = text?
  rintro (hdelivered | hrefused)
  · exact .inl ⟨rfl, _, rfl, hdelivered⟩
  · exact .inr ⟨Nat.one_ne_zero, rfl, rfl, hrefused⟩

-- A `compile` line that is in order asks for the page of help, and then nothing else happens, or it
-- is all or nothing.
theorem compile_all_or_nothing {options : List ByteString} {request : Request}
    (h : Request.read? (.ofText "compile" :: options) = some request) (s : Memory) :
    ∃ outcome after,
      (runLine (.ofText "compile" :: options) : StateM Memory Outcome).run s = (outcome, after) ∧
      ((request = .help .compile ∧ outcome = { out := HelpPage.compile.render } ∧ after = s) ∨
      ∃ given destination, request = .compile given destination ∧
        ((outcome.code = 0 ∧ ∃ text, s.compiled? given = some text ∧
          destination.Delivered s text outcome.out after) ∨
        (outcome.code ≠ 0 ∧ outcome.out = "" ∧ after = s ∧
          ∀ text, s.compiled? given = some text → destination.Refuses s text))) := by
  have hline : (runLine (.ofText "compile" :: options) : StateM Memory Outcome) = request.run := by
    rw [runLine, h]
  have hread : CompileLine.read? {} options = some request := h
  rw [hline]
  rcases CompileLine.cases_of_read? hread with rfl | ⟨given, destination, rfl⟩
  · exact ⟨_, s, rfl, .inl ⟨rfl, rfl, rfl⟩⟩
  · obtain ⟨outcome, after, hrun, hends⟩ := run_compile_or_nothing given destination s
    exact ⟨outcome, after, hrun, .inr ⟨given, destination, rfl, hends⟩⟩

-- A user's settings are below the home directory, unless the environment says otherwise.
def homeSettings (env : Environment) : Option RawPath :=
  let directory key := (env key).map fun value => value.data.toList
  (directory "XDG_CONFIG_HOME").filter RawPath.isAbsolute <|>
    ((directory "HOME").filter (· ≠ [])).map fun home => RawPath.join home (.ofText ".config")

-- The project among the user's settings is found, and its text goes to the file that is asked for.
theorem compile_all_or_nothing_of_user :
    let s : Memory := {
      tree := {
        files := [(["home", ".config", "uwsgiconf", "uwsgiconf.toml"].map ByteString.ofText,
          "[[sections]]".toUTF8)]
        current := [.ofText "work"] }
      env := fun key => if key = "HOME" then some "/home".toUTF8 else none
      settings := homeSettings }
    let options := [ByteString.ofText "-o", .ofText "out.ini"]
    Request.read? (.ofText "compile" :: options) =
        some (.compile none (.file (.ofText "out.ini"))) ∧
      ∃ after, (runLine (.ofText "compile" :: options) : StateM Memory Outcome).run s =
        ({ out := "out.ini\n" }, after) ∧
        s.Written (.ofText "out.ini") (bannerLine ++ "\n[uwsgi]\n") after := by
  intro s options
  have hread : Request.read? (.ofText "compile" :: options) =
      some (.compile none (.file (.ofText "out.ini"))) := by
    decide +kernel
  have hrun : ((runLine (.ofText "compile" :: options) : StateM Memory Outcome).run s).1 =
      { out := "out.ini\n" } := by
    decide +kernel
  have htext : s.compiled? none = some (bannerLine ++ "\n[uwsgi]\n") := by
    decide +kernel
  obtain ⟨outcome, after, hresult, ⟨hhelp, -⟩ | ⟨given, destination, hrequest, hends⟩⟩ :=
    compile_all_or_nothing hread s
  · cases hhelp
  · cases hrequest
    rw [hresult] at hrun
    obtain rfl : outcome = { out := "out.ini\n" } := hrun
    rcases hends with ⟨-, text, hcompiled, -, hwritten⟩ | ⟨hcode, -⟩
    · rw [htext] at hcompiled
      cases hcompiled
      exact ⟨hread, after, hresult, hwritten⟩
    · exact absurd rfl hcode

-- Two lines that are in order print neither the text nor the path of the file that it went to: one
-- asks for help, and the other gives a path that is no text.
theorem compile_prints_page_or_replacement :
    let s : Memory := { tree := { files := [([projectFile], "[[sections]]".toUTF8)] } }
    let text := bannerLine ++ "\n[uwsgi]\n"
    let run options := (runLine (.ofText "compile" :: options) : StateM Memory Outcome).run s
    s.compiled? none = some text ∧
    Request.read? [.ofText "compile", .ofText "--help"] = some (.help .compile) ∧
    (∃ out, run [.ofText "--help"] = ({ out }, s) ∧ out ≠ text) ∧
    Request.read? [.ofText "compile", .ofText "-o", [0xFF]] =
      some (.compile none (.file [0xFF])) ∧
    ∃ out after, run [.ofText "-o", [0xFF]] = ({ out }, after) ∧ s.Written [0xFF] text after ∧
      ByteString.ofText out ≠ [0xFF] ++ ByteString.ofText "\n" := by
  intro s text run
  have htext : s.compiled? none = some text := by
    decide +kernel
  have hread : Request.read? [.ofText "compile", .ofText "-o", [0xFF]] =
      some (.compile none (.file [0xFF])) := by
    decide +kernel
  refine ⟨htext, by decide +kernel, ⟨_, rfl, by decide +kernel⟩, hread, ?_⟩
  have hline : (runLine [.ofText "compile", .ofText "-o", [0xFF]] : StateM Memory Outcome) =
      (Request.compile none (.file [0xFF])).run := by
    rw [runLine, hread]
  have hprinted : (run [.ofText "-o", [0xFF]]).1 = { out := "\uFFFD\n" } := by
    decide +kernel
  obtain ⟨outcome, after, hrun, hends⟩ := run_compile_or_nothing none (.file [0xFF]) s
  rw [← hline] at hrun
  obtain rfl : outcome = { out := "\uFFFD\n" } := by
    rw [← hprinted]
    exact (congrArg Prod.fst hrun).symm
  rcases hends with ⟨-, text', hcompiled, -, hwritten⟩ | ⟨hcode, -⟩
  · rw [htext] at hcompiled
    cases hcompiled
    exact ⟨"\uFFFD\n", after, hrun, hwritten, by decide +kernel⟩
  · exact absurd rfl hcode

end Vassal
