import FormWeave.Command.Run
import FormWeave.Proofs.FileSystems
import FormWeave.Proofs.TextBytes

/-!
# What is only looked at

Settings and designs are read from files, and messages are shown; that changes nothing but what was
written to the terminal, and the result depends on the files alone. So it can be read off the
files, however often it is done.
-/

namespace FormWeave

variable {α β : Type} {files : FileSystem}

/-! ## 1. Looking -/

/-- On given files a computation has a result, and leaves the machine and the input alone. -/
def Sees (files : FileSystem) (call : StateM World α) (a : α) : Prop :=
  ∀ w, w.files = files →
    (call w).1 = a ∧ (call w).2.machine = w.machine ∧ (call w).2.input = w.input

namespace Sees

variable {a : α} {b : β} {call : StateM World α} {next : α → StateM World β}

theorem pure (a : α) : Sees files (pure a) a := fun _ _ => ⟨rfl, rfl, rfl⟩

theorem bind (h : Sees files call a) (hnext : Sees files (next a) b) :
    Sees files (call >>= next) b := by
  intro w hw
  obtain ⟨ha, hmachine, hinput⟩ := h w hw
  obtain ⟨hb, hmachine', hinput'⟩ :=
    hnext (call w).2 ((World.machine_eq_iff.1 hmachine).1.trans hw)
  rw [← ha] at hb hmachine' hinput'
  exact ⟨hb, hmachine'.trans hmachine, hinput'.trans hinput⟩

theorem isFile {path : String} {found : Bool} (h : files.isFile path = found) :
    Sees files (Shell.isFile path) found := by
  rintro w rfl
  exact ⟨h, rfl, rfl⟩

theorem log (event : LogEvent) : Sees files (Shell.log event) () := by
  rintro w rfl
  obtain ⟨errors, hlog⟩ := World.log_run event w
  rw [hlog]
  exact ⟨rfl, rfl, rfl⟩

theorem complain (text : String) : Sees files (Shell.complain text) () := by
  rintro w rfl
  exact ⟨rfl, rfl, rfl⟩

theorem print (bytes : Bytes) : Sees files (Shell.print bytes) () := by
  rintro w rfl
  exact ⟨rfl, rfl, rfl⟩

theorem forM {δ : Type} {action : δ → StateM World Unit} (h : ∀ item, Sees files (action item) ())
    (items : List δ) : Sees files (items.forM action) () := by
  induction items with
  | nil => exact .pure ()
  | cons item rest ih => exact (h item).bind ih

theorem run {v w : World} (h : Sees w.files call a) (hmachine : v.machine = w.machine) :
    ∃ u : World, call v = (a, u) ∧ u.machine = w.machine ∧ u.input = v.input := by
  obtain ⟨hresult, hkept, hinput⟩ := h v (World.machine_eq_iff.1 hmachine).1
  exact ⟨(call v).2, Prod.ext hresult rfl, hkept.trans hmachine, hinput⟩

/-- A file is read as it is. -/
theorem read {path : String} {content : Bytes} (h : files.find? path = .ok (.file content)) :
    Sees files (Shell.read path) (Except.ok content) := by
  rintro w rfl
  rw [World.read_run h]
  exact ⟨rfl, rfl, rfl⟩

end Sees

/-- What is read depends on the files and on what is still to be read, and the machine stays. -/
theorem World.exists_read {v w : World} (hmachine : v.machine = w.machine)
    (hinput : v.input = w.input) (path : String) :
    ∃ u : World, Shell.read (m := StateM World) path v =
        ((Shell.read (m := StateM World) path w).1, u) ∧
      u.machine = w.machine ∧ u.input = (Shell.read (m := StateM World) path w).2.input := by
  have hfiles := (machine_eq_iff.1 hmachine).1
  rw [read_eq, read_eq, hfiles]
  split
  · exact ⟨{ v with input := [] }, by rw [hinput, ← hfiles], hmachine, rfl⟩
  · exact ⟨v, rfl, hmachine, hinput⟩

/-- The answer to a question depends on what is still to be read. -/
theorem World.takeLine_congr {v w : World} (hinput : v.input = w.input) :
    (takeLine v).1 = (takeLine w).1 := by
  unfold takeLine
  rw [hinput]
  split <;> rfl

theorem World.machine_takeLine (w : World) : (takeLine w).2.machine = w.machine := by
  unfold takeLine
  split <;> rfl

theorem FileSystem.isFile_iff {path : String} :
    files.isFile path = true ↔ ∃ content, files.find? path = .ok (.file content) := by
  unfold FileSystem.isFile
  split
  · next content h => simp [h]
  · next h => simpa using fun content hfile => h content hfile

/-! ## 2. Loading -/

def textOf (content : Bytes) : Except FileFault String :=
  match Utf8.decode? content with
  | some text => .ok text
  | none => .error .invalidData

theorem sees_readText {path : String} {content : Bytes}
    (h : files.find? path = .ok (.file content)) :
    Sees files (Shell.readText path) (textOf content) := by
  refine (Sees.read h).bind ?_
  dsimp only
  unfold textOf
  cases Utf8.decode? content with
  | none => exact .pure _
  | some text => exact .pure _

namespace Project

theorem sees_firstFile (paths : List String) :
    Sees files (firstFile paths) (paths.find? files.isFile) := by
  induction paths with
  | nil => exact .pure none
  | cons path rest ih =>
    rw [List.find?_cons]
    cases hfile : files.isFile path with
    | true => exact (Sees.isFile hfile).bind (.pure _)
    | false => exact (Sees.isFile hfile).bind ih

/-- Settings are read off the files. -/
theorem exists_sees_settings (files : FileSystem) (root : String) :
    ∃ result, Sees files (loadSettingsOrDefault root) result := by
  suffices h : ∃ result, Sees files (loadSettings root) result by
    obtain ⟨result, hresult⟩ := h
    exact ⟨_, hresult.bind (.pure _)⟩
  have hpath : Sees files (firstFile (settingsNames.map (Path.join root))) _ := sees_firstFile _
  cases hfound : (settingsNames.map (Path.join root)).find? files.isFile with
  | none =>
    rw [hfound] at hpath
    exact ⟨_, hpath.bind (.pure _)⟩
  | some path =>
    rw [hfound] at hpath
    obtain ⟨content, hcontent⟩ := FileSystem.isFile_iff.1 (List.find?_some hfound)
    have htext := sees_readText hcontent
    cases hdecoded : textOf content with
    | error fault =>
      rw [hdecoded] at htext
      exact ⟨_, hpath.bind (htext.bind (.pure _))⟩
    | ok text =>
      rw [hdecoded] at htext
      exact ⟨_, hpath.bind (htext.bind (.pure _))⟩

/-- A design is read off its file. -/
theorem sees_loadDesign {path : String} {content : Bytes}
    (h : files.find? path = .ok (.file content)) :
    Sees files (loadDesign path) ((textOf content).mapError Error.file >>= Design.parse) := by
  have hfile : files.isFile path = true := FileSystem.isFile_iff.2 ⟨content, h⟩
  refine (Sees.isFile hfile).bind ((sees_readText h).bind ?_)
  cases textOf content with
  | error fault => exact .pure _
  | ok text =>
    show Sees files _ (Design.parse text)
    dsimp only
    cases Design.parse text with
    | error error => exact .pure _
    | ok design => exact (Sees.forM (fun _ => .log _) _).bind ((Sees.log _).bind (.pure _))

theorem sees_loadDesign_missing {path : String} (h : files.isFile path = false) :
    Sees files (loadDesign path) (Except.error (.missingDesign path)) :=
  (Sees.isFile h).bind (.pure _)

/-- A design that was loaded is the one that its file holds. -/
theorem loadDesign_cases {w : World} {path : String} {design : Design}
    (h : (loadDesign (m := StateM World) path w).1 = .ok design) :
    ∃ content text, w.files.find? path = .ok (.file content) ∧ textOf content = .ok text ∧
      Design.parse text = .ok design := by
  cases hfile : w.files.isFile path with
  | false =>
    rw [(sees_loadDesign_missing hfile w rfl).1] at h
    cases h
  | true =>
    obtain ⟨content, hcontent⟩ := FileSystem.isFile_iff.1 hfile
    rw [(sees_loadDesign hcontent w rfl).1] at h
    cases htext : textOf content with
    | error fault =>
      rw [htext] at h
      cases h
    | ok text =>
      rw [htext] at h
      exact ⟨content, text, hcontent, htext, h⟩

/-- A design is loaded from a file that holds its text. -/
theorem loadDesign_of_text {w : World} {path text : String} {design : Design}
    (hfile : w.files.find? path = .ok (.file (utf8 text))) (h : Design.parse text = .ok design) :
    (loadDesign (m := StateM World) path w).1 = .ok design := by
  rw [(sees_loadDesign hfile w rfl).1, textOf, Utf8.decode?_utf8]
  exact h

theorem exists_sees_design (files : FileSystem) (path : String) :
    ∃ result, Sees files (loadDesign path) result := by
  cases hfile : files.isFile path with
  | false => exact ⟨_, sees_loadDesign_missing hfile⟩
  | true =>
    obtain ⟨content, hcontent⟩ := FileSystem.isFile_iff.1 hfile
    exact ⟨_, sees_loadDesign hcontent⟩

end Project

end FormWeave
