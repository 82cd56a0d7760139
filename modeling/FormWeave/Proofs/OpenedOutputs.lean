import FormWeave.Project.Files
import FormWeave.Proofs.DesignIds
import FormWeave.Proofs.FileSystems

/-!
# Outputs that cannot be opened

Generated code goes to two outputs, which are opened one after the other. Opening a file empties it,
so a run that stops at the second output leaves the first one without what it held. Nothing else
changes, and what stands where the second output was to be opened stays.
-/

namespace FormWeave

namespace Project

variable {before after : FileSystem} {output : Option String} {path : String}

/-! ## 1. Opening an output -/

inductive Opened : Option String → FileSystem → FileSystem → Prop
  | terminal (files : FileSystem) : Opened none files files
  | file {path : String} {before after : FileSystem} (written : before.write path [] = .ok after) :
    Opened (some path) before after

theorem openOutput_run (output : Option String) (w : World) :
    (∃ path fault, output = some path ∧ w.files.write path [] = .error fault ∧
      openOutput (m := StateM World) output w = (Except.error (.openOutput path fault), w)) ∨
    ∃ files, Opened output w.files files ∧
      openOutput (m := StateM World) output w = (Except.ok (), ({ w with files } : World)) := by
  cases output with
  | none => exact .inr ⟨w.files, .terminal _, rfl⟩
  | some path =>
    cases hwrite : w.files.write path [] with
    | error fault =>
      refine .inl ⟨path, fault, rfl, hwrite, ?_⟩
      exact World.bind_run (World.change_error (f := (·.write path [])) hwrite)
    | ok files =>
      refine .inr ⟨files, .file hwrite, ?_⟩
      exact World.bind_run (World.change_ok (f := (·.write path [])) hwrite)

namespace Opened

/-- An opened file is empty. -/
theorem read (h : Opened (some path) before after) : after.read path = .ok [] := by
  cases h with
  | file written =>
    obtain ⟨place, hslot, ⟨⟨device, hdevice⟩, rfl⟩ | rfl⟩ := FileSystem.write_cases written
    · rw [FileSystem.read, hslot.find?.2 hdevice]
      rfl
    · have hkept := (FileSystem.sameBut_put hslot.free []).slot.2 hslot
      refine hkept.read ?_
      rw [FileSystem.at?_put hslot.free, if_pos rfl]

/-- Opening an output changes at most the place where its path leads. -/
theorem sameBut (h : Opened output before after) :
    ∃ changed, FileSystem.SameBut changed before after ∧
      ∀ place ∈ changed, (∃ path, output = some path ∧ before.Slot path place) ∧
        after.at? place = some (.file []) := by
  cases h with
  | terminal => exact ⟨[], .refl _ _, by simp⟩
  | file written =>
    obtain ⟨place, hslot, ⟨-, rfl⟩ | rfl⟩ := FileSystem.write_cases written
    · exact ⟨[], .refl _ _, by simp⟩
    · refine ⟨[place], FileSystem.sameBut_put hslot.free [], ?_⟩
      rintro other hother
      obtain rfl := List.mem_singleton.1 hother
      refine ⟨⟨_, rfl, hslot⟩, ?_⟩
      rw [FileSystem.at?_put hslot.free, if_pos rfl]

theorem find?_elsewhere (h : Opened output before after)
    (hpath : ∀ opened, output = some opened → before.resolve path ≠ before.resolve opened)
    {entry : FileEntry} : after.find? path = .ok entry ↔ before.find? path = .ok entry := by
  obtain ⟨changed, hsame, hchanged⟩ := h.sameBut
  refine hsame.find? fun place hplace hresolve => ?_
  obtain ⟨⟨opened, houtput, hslot⟩, -⟩ := hchanged place hplace
  exact hpath opened houtput (hresolve.trans hslot.leads.symm)

/-- A path that cannot be opened behind an output finds what it found. If it leads to the same place,
it asks for a directory there, which there is none. -/
theorem find?_unwritable (h : Opened output before after) {fault : FileFault}
    (hfault : after.write path [] = .error fault) {entry : FileEntry} :
    after.find? path = .ok entry ↔ before.find? path = .ok entry := by
  obtain ⟨changed, hsame, hchanged⟩ := h.sameBut
  by_cases hpath : ∀ place ∈ changed, before.resolve path ≠ .ok place
  · exact hsame.find? hpath
  · simp only [not_forall, not_not] at hpath
    obtain ⟨place, hplace, hresolve⟩ := hpath
    obtain ⟨⟨opened, -, hslot⟩, hempty⟩ := hchanged place hplace
    have hresolve' := hsame.resolve.2 hresolve
    -- A name would have been opened, since a file stands at the place by now.
    have hdirectory : FileSystem.namesDirectory path = true := by
      rw [← Bool.not_eq_false]
      intro hnamed
      have hending : Path.ending path = .name := by
        cases hending : Path.ending path <;> simp [FileSystem.namesDirectory, hending] at hnamed ⊢
      have hthere : after.Slot path place :=
        ⟨hresolve', by simp [hempty], hending, hslot.possible⟩
      rw [hthere.write (by simp [hempty])] at hfault
      cases hfault
    have hnone : ∀ {files : FileSystem}, files.resolve path = .ok place →
        files.at? place ≠ some .directory → files.find? path ≠ .ok entry := by
      intro files hleads hfree hfind
      obtain ⟨found, hfound, hentry, hasked⟩ := FileSystem.find?_eq_ok.1 hfind
      obtain rfl := Except.ok.inj (hleads.symm.trans hfound)
      rw [hasked hdirectory] at hentry
      exact hfree hentry
    exact ⟨fun hfind => absurd hfind (hnone hresolve' (by simp [hempty])),
      fun hfind => absurd hfind (hnone hresolve hslot.free)⟩

end Opened

/-! ## 2. Opening both outputs -/

variable (design : Design) (settings : Settings) (header : Option String) (options : RunOptions)
  {source : Option String} {w opened ready : World}

theorem writeCode_of_source {error : Error}
    (hsource : openOutput (m := StateM World) source w = (Except.error error, w)) :
    writeCode (m := StateM World) design settings source header options w =
      (Except.error error, w) :=
  World.bind_run hsource

variable {header}

theorem writeCode_of_header {error : Error}
    (hsource : openOutput (m := StateM World) source w = (Except.ok (), opened))
    (hheader : openOutput (m := StateM World) header opened = (Except.error error, opened)) :
    writeCode (m := StateM World) design settings source header options w =
      (Except.error error, opened) :=
  (World.bind_run hsource).trans (World.bind_run hheader)

/-- Behind the opening of the outputs, what is delivered decides. -/
theorem writeCode_of_opened
    (hsource : openOutput (m := StateM World) source w = (Except.ok (), opened))
    (hheader : openOutput (m := StateM World) header opened = (Except.ok (), ready))
    {result : Except FileFault Report} {writer : Writer}
    (hrun : Generation.runDesign (headerNames settings header) options design.nodes
      (Generation.start settings options) = (result, writer)) :
    (writeCode (m := StateM World) design settings source header options w).1 =
        (do
          let report ← result.mapError Error.file
          (deliver (m := StateM World) source header writer ready).1
          return report) ∧
      (writeCode (m := StateM World) design settings source header options w).2.files =
        (deliver (m := StateM World) source header writer ready).2.files := by
  cases hdelivered : deliver (m := StateM World) source header writer ready with
  | mk delivered left =>
    unfold writeCode
    rw [World.bind_run hsource]
    dsimp only
    rw [World.bind_run hheader]
    dsimp only
    rw [hrun]
    dsimp only
    rw [World.bind_run hdelivered]
    rcases result with fault | report
    · exact ⟨rfl, rfl⟩
    rcases delivered with error | ⟨⟩
    · exact ⟨rfl, rfl⟩
    · exact ⟨rfl, (World.machine_eq_iff.1 (World.machine_log _ left)).1⟩

/-- No error behind the opening of the outputs is about opening them. -/
theorem writeCode_opened_error {error : Error}
    (hsource : openOutput (m := StateM World) source w = (Except.ok (), opened))
    (hheader : openOutput (m := StateM World) header opened = (Except.ok (), ready))
    (h : (writeCode (m := StateM World) design settings source header options w).1 =
      Except.error error) : ∃ fault, error = .file fault := by
  cases hrun : Generation.runDesign (headerNames settings header) options design.nodes
      (Generation.start settings options) with
  | mk result writer =>
    -- What is delivered fails with a fault of a file, like the run itself.
    obtain ⟨closed, hclosed⟩ : ∃ closed,
        (deliver (m := StateM World) source header writer ready).1 =
          Except.mapError Error.file closed := ⟨_, rfl⟩
    rw [(writeCode_of_opened design settings options hsource hheader hrun).1, hclosed] at h
    rcases result with fault | report
    · exact ⟨fault, (Except.error.inj h).symm⟩
    rcases closed with fault | ⟨⟩
    · exact ⟨fault, (Except.error.inj h).symm⟩
    · cases h

/-! ## 3. Outputs that cannot be opened -/

/-- If the source cannot be opened, nothing changes. If the header cannot be opened, the source was
opened before and is empty; where the header was to be opened, and wherever the source does not
lead, stands what stood there. -/
theorem writeCode_openFailed (design : Design) (settings : Settings)
    (source header : Option String) (options : RunOptions) (w : World) {path : String}
    {fault : FileFault}
    (h : (writeCode (m := StateM World) design settings source header options w).1 =
      Except.error (.openOutput path fault)) :
    (source = some path ∧ w.files.write path [] = .error fault ∧
      (writeCode (m := StateM World) design settings source header options w).2 = w) ∨
    (header = some path ∧ ∃ files, files.write path [] = .error fault ∧
      (writeCode (m := StateM World) design settings source header options w).2 =
        { w with files } ∧
      (∀ opened, source = some opened → files.read opened = .ok []) ∧
      ∀ other entry, (other = path ∨
          ∀ opened, source = some opened → w.files.resolve other ≠ w.files.resolve opened) →
        (files.find? other = .ok entry ↔ w.files.find? other = .ok entry)) := by
  -- The source is opened first, and the header only if that succeeds.
  rcases openOutput_run source w with
    ⟨asked, cause, rfl, hwrite, hsource⟩ | ⟨files, hopened, hsource⟩
  · have hrun := writeCode_of_source design settings header options hsource
    rw [hrun] at h ⊢
    obtain ⟨rfl, rfl⟩ := Error.openOutput.inj (Except.error.inj h)
    exact .inl ⟨rfl, hwrite, rfl⟩
  rcases openOutput_run header { w with files } with
    ⟨asked, cause, rfl, hwrite, hheader⟩ | ⟨ready, -, hheader⟩
  · have hrun := writeCode_of_header design settings options hsource hheader
    rw [hrun] at h ⊢
    obtain ⟨rfl, rfl⟩ := Error.openOutput.inj (Except.error.inj h)
    refine .inr ⟨rfl, files, hwrite, rfl, ?_, ?_⟩
    · rintro opened rfl
      exact hopened.read
    · rintro other entry (rfl | helsewhere)
      · exact hopened.find?_unwritable hwrite
      · exact hopened.find?_elsewhere helsewhere
  · -- With both of them open, other errors are all that is left.
    obtain ⟨cause, hcause⟩ := writeCode_opened_error design settings options hsource hheader h
    cases hcause

def editedProject : World :=
  { files :=
      { workingDirectory := "/work"
        entries := (["work", "hello.cxx"], .file (utf8 "int edited;\n")) :: Place.usual } }

theorem writeCode_openFailed_header :
    (writeCode (m := StateM World) Design.sample {} (some "hello.cxx") (some "missing/hello.h") {}
        editedProject).1 = Except.error (.openOutput "missing/hello.h" .notFound) ∧
      ∃ files, (writeCode (m := StateM World) Design.sample {} (some "hello.cxx")
          (some "missing/hello.h") {} editedProject).2 = { editedProject with files } ∧
        files.read "hello.cxx" = .ok [] := by
  have hresult : (writeCode (m := StateM World) Design.sample {} (some "hello.cxx")
      (some "missing/hello.h") {} editedProject).1 =
        Except.error (.openOutput "missing/hello.h" .notFound) := rfl
  rcases writeCode_openFailed Design.sample {} _ _ {} editedProject hresult with
    ⟨hsource, -⟩ | ⟨-, files, -, hafter, hempty, -⟩
  · exact absurd hsource (by decide)
  · exact ⟨hresult, files, hafter, hempty _ rfl⟩

/-- The edits are lost although nothing was generated. -/
theorem failed_header_loses_edits :
    (writeCode (m := StateM World) Design.sample {} (some "hello.cxx") (some "missing/hello.h") {}
        editedProject).1 = Except.error (.openOutput "missing/hello.h" .notFound) ∧
      editedProject.files.read "hello.cxx" = .ok (utf8 "int edited;\n") ∧
      (writeCode (m := StateM World) Design.sample {} (some "hello.cxx") (some "missing/hello.h") {}
        editedProject).2.files.read "hello.cxx" = .ok [] :=
  ⟨rfl, rfl, rfl⟩

end Project

end FormWeave
