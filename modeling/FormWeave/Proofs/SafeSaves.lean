import FormWeave.Command.Run
import FormWeave.Proofs.FileSystems

/-!
# Safe saves

A design is kept in a second file before it is changed, and written to a third one before that takes
its place. The three paths end in different names, so no save gets in the way of another, and at the
end the temporary file is gone.
-/

namespace FormWeave

open FileSystem

/-! ## 1. Names of backups and temporary files -/

namespace Path

variable {path extension name : String}

/-- A path with another extension ends in the extension if it ends in a name. -/
theorem EndsIn.of_withExtension (h : EndsIn (withExtension path extension) name)
    (hextension : extension ≠ "") (hplain : '/' ∉ extension.toList) :
    ("." ++ extension).toList <:+ name.toList := by
  have hdot : '/' ∉ ("." ++ extension).toList := by
    rw [String.toList_append, List.mem_append, not_or]
    exact ⟨by decide, hplain⟩
  unfold withExtension at h
  dsimp only at h
  split at h
  · next hstem =>
    rw [fileStem?, h.fileName?] at hstem
    cases hstem
  · rw [if_neg (by simpa using hextension), withFileName, ← String.append_assoc] at h
    exact h.of_append hdot

end Path

variable {fs : FileSystem} {path : String} {place backup temporary : Place} {number : Nat}

/-- Where a process writes a file before it takes the place of another one. -/
def Project.temporaryOf (number : Nat) (path : String) : String :=
  Path.withExtension path ("json.tmp-" ++ toString number)

/-- The names of temporary files end in a digit. -/
theorem Project.temporary_ending (number : Nat) :
    ∃ digit : Char, digit.isDigit = true ∧
      ("json.tmp-" ++ toString number).toList.getLast? = some digit := by
  have hne : (toString number).toList ≠ [] := by
    rw [Text.toList_toString]
    exact Nat.toDigits_ne_nil
  refine ⟨_, Text.isDigit_of_mem_toString (List.getLast_mem hne), ?_⟩
  rw [String.toList_append, List.getLast?_append, List.getLast?_eq_some_getLast hne, Option.some_or]

theorem Project.slash_not_mem_temporary (number : Nat) :
    '/' ∉ ("json.tmp-" ++ toString number).toList := by
  rw [String.toList_append, List.mem_append, not_or]
  exact ⟨by decide, fun hslash => absurd (Text.isDigit_of_mem_toString hslash) (by decide)⟩

theorem FileSystem.Slot.backup_ne (hbackup : fs.Slot (path ++ ".bak") backup)
    (hplace : fs.Slot path place) : backup ≠ place := by
  obtain ⟨name, hname, hlast⟩ := hplace.endsIn
  obtain ⟨other, hother, hlast'⟩ := hbackup.endsIn
  rintro rfl
  obtain rfl := Option.some.inj (hlast.symm.trans hlast')
  -- The name of the backup is longer.
  have hlonger := congrArg String.length (hname.append hother (by decide))
  rw [String.length_append] at hlonger
  have hsize : ".bak".length = 4 := by decide
  omega

theorem FileSystem.Slot.temporary_ne
    (htemporary : fs.Slot (Project.temporaryOf number path) temporary)
    (hbackup : fs.Slot (path ++ ".bak") backup) : temporary ≠ backup := by
  obtain ⟨name, hname, hlast⟩ := htemporary.endsIn
  obtain ⟨other, hother, hlast'⟩ := hbackup.endsIn
  rintro rfl
  obtain rfl := Option.some.inj (hlast.symm.trans hlast')
  -- No name ends in both.
  obtain ⟨digit, hdigit, hlast⟩ := Project.temporary_ending number
  have hextension : "json.tmp-" ++ toString number ≠ "" := by
    intro hempty
    rw [hempty] at hlast
    cases hlast
  obtain ⟨front, hfront⟩ :=
    hname.of_withExtension hextension (Project.slash_not_mem_temporary number)
  obtain ⟨front', hfront'⟩ := hother.of_append (by decide)
  have hend := congrArg List.getLast? (hfront.trans hfront'.symm)
  have hk : ".bak".toList.getLast? = some 'k' := by decide
  rw [List.getLast?_append, List.getLast?_append, String.toList_append, List.getLast?_append, hlast,
    hk] at hend
  obtain rfl : digit = 'k' := Option.some.inj hend
  exact absurd hdigit (by decide)

/-! ## 2. Backups and saves -/

variable {w : World} {old : Bytes}

namespace Project

/-- A saved design is in its file, and nothing else changes. -/
theorem saveDesign_run (design : Design) (hplace : w.files.Slot path place)
    (hfile : w.files.at? place = some (.file old))
    (htemporary : w.files.Slot (temporaryOf w.processNumber path) temporary)
    (hunused : w.files.at? temporary = none) :
    ∃ v, saveDesign (m := StateM World) design path w = (Except.ok (), v) ∧
      SameBut [place] w.files v.files ∧
      v.files.at? place = some (.file (utf8 (design.render ++ "\n"))) := by
  have hne : temporary ≠ place := by
    rintro rfl
    rw [hunused] at hfile
    cases hfile
  obtain ⟨written, hwrite, hwritten, hholds⟩ := World.write_run htemporary
    (fun device hdevice => by simp [hunused] at hdevice) (utf8 (design.render ++ "\n"))
  obtain ⟨moved, hrename, hmoved, hgone, hsaved⟩ :=
    World.rename_run (w := { w with files := written }) (hwritten.slot.2 htemporary) hholds
      (hwritten.slot.2 hplace) hne
  have hkept : SameBut [place] w.files moved := by
    have hsame : SameBut [temporary, place] w.files moved := (hwritten.mono (by simp)).trans hmoved
    -- Nothing stands again where the temporary file was.
    exact hsame.restored (hgone.trans hunused.symm)
  obtain ⟨errors, hlog⟩ := World.log_run
    { level := .debug, message := "saved design", fields := [("path", .plain path)] }
    { w with files := moved }
  have hnumber : Shell.processNumber (m := StateM World) w = (w.processNumber, w) := rfl
  refine ⟨{ w with files := moved, errors }, ?_, hkept, hsaved⟩
  unfold saveDesign
  rw [World.bind_run hnumber, ← temporaryOf, World.bind_run hwrite]
  dsimp only
  rw [World.bind_run hrename]
  dsimp only
  rw [World.bind_run hlog]
  rfl

end Project

/-- A restore point is a copy of the design file. -/
theorem Command.checkpoint_run (t : Terminal) (hfile : w.files.find? path = .ok (.file old))
    (hbackup : w.files.Slot (path ++ ".bak") backup)
    (hplain : ∀ device, w.files.at? backup ≠ some (.device device)) :
    ∃ v, (host (m := StateM World) t path).checkpoint w = (Except.ok (), v) ∧
      v.processNumber = w.processNumber ∧ SameBut [backup] w.files v.files ∧
      v.files.at? backup = some (.file old) := by
  obtain ⟨files, hwrite, hsame, hholds⟩ := World.write_run hbackup hplain old
  have hcopy : Shell.copy (m := StateM World) path (path ++ ".bak") w =
      (Except.ok (), ({ w with files } : World)) :=
    (World.bind_run (World.read_run hfile)).trans hwrite
  obtain ⟨errors, hlog⟩ := World.log_run
    { level := .debug, message := "backed up design",
      fields := [("backup", .plain (path ++ ".bak"))] } { w with files }
  refine ⟨{ w with files, errors }, ?_, rfl, hsame, hholds⟩
  unfold host
  dsimp only
  rw [World.bind_run hcopy]
  dsimp only
  rw [World.bind_run hlog]
  rfl

/-! ## 3. Saving behind a restore point -/

namespace Project

/-- What a process needs to save a design: a place for a copy of the old one, which a device would
not keep, and one for the new one, where nothing stands yet. -/
structure Savable (fs : FileSystem) (number : Nat) (path : String) : Prop where
  design : ∃ place, fs.Slot path place
  backup : ∃ place, fs.Slot (path ++ ".bak") place ∧ ∀ device, fs.at? place ≠ some (.device device)
  temporary : ∃ place, fs.Slot (temporaryOf number path) place ∧ fs.at? place = none

/-- The files behind a save: the design file has new content, the backup has the old one, and
nothing else differs. -/
structure Saved (before after : FileSystem) (path : String) (old new : Bytes) : Prop where
  design : after.find? path = .ok (.file new)
  backup : after.find? (path ++ ".bak") = .ok (.file old)
  elsewhere : ∀ other entry, before.resolve other ≠ before.resolve path →
    before.resolve other ≠ before.resolve (path ++ ".bak") →
    (after.find? other = .ok entry ↔ before.find? other = .ok entry)

/-- A design is saved behind a restore point. -/
theorem saved_run (t : Terminal) (design : Design) (h : Savable w.files w.processNumber path)
    (hfile : w.files.find? path = .ok (.file old)) :
    ∃ ready, (Command.host (m := StateM World) t path).checkpoint w = (Except.ok (), ready) ∧
      ∀ u : World, u.machine = ready.machine →
        ∃ v, saveDesign (m := StateM World) design path u = (Except.ok (), v) ∧
          Saved w.files v.files path old (utf8 (design.render ++ "\n")) := by
  obtain ⟨place, hplace⟩ := h.design
  obtain ⟨backup, hbackup, hplain⟩ := h.backup
  obtain ⟨temporary, htemporary, hunused⟩ := h.temporary
  obtain ⟨ready, hcheckpoint, hnumber, hkept, hcopy⟩ :=
    Command.checkpoint_run t hfile hbackup hplain
  refine ⟨ready, hcheckpoint, fun u hmachine => ?_⟩
  obtain ⟨hfiles, hsame⟩ := World.machine_eq_iff.1 hmachine
  rw [← hfiles] at hkept hcopy
  rw [← hnumber, ← hsame] at htemporary
  -- The backup is neither the design nor the temporary file, so both are still as they were.
  have hfile' : u.files.at? place = some (.file old) := by
    rw [hkept.entry place (reachable_resolve hplace.leads)
      (by simpa using (hbackup.backup_ne hplace).symm)]
    exact hplace.find?.1 hfile
  have hunused' : u.files.at? temporary = none := by
    rw [hkept.entry temporary (reachable_resolve htemporary.leads)
      (by simpa using htemporary.temporary_ne hbackup)]
    exact hunused
  obtain ⟨v, hsave, hchanged, hsaved⟩ := saveDesign_run design (hkept.slot.2 hplace) hfile'
    (hkept.slot.2 htemporary) hunused'
  have hboth : SameBut [backup, place] w.files v.files :=
    (hkept.mono (by simp)).trans (hchanged.mono (by simp))
  have hcopy' : v.files.at? backup = some (.file old) := by
    rw [hchanged.entry backup (hkept.reachable (reachable_resolve hbackup.leads))
      (by simpa using hbackup.backup_ne hplace)]
    exact hcopy
  refine ⟨v, hsave, (hboth.slot.2 hplace).find?.2 hsaved, (hboth.slot.2 hbackup).find?.2 hcopy', ?_⟩
  intro other entry hdesign hother
  refine hboth.find? fun changed hmem hleads => ?_
  simp only [List.mem_cons, List.not_mem_nil, or_false] at hmem
  rcases hmem with rfl | rfl
  · exact hother (hleads.trans hbackup.leads.symm)
  · exact hdesign (hleads.trans hplace.leads.symm)

end Project

end FormWeave
