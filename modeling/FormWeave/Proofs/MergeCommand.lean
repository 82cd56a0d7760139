import FormWeave.Proofs.LoadedFiles
import FormWeave.Proofs.MergeAnswers
import FormWeave.Proofs.MergedDesigns
import FormWeave.Proofs.SafeSaves

/-!
# The merge command

What a merge does is settled by the files and the answer before anything is written. Unless it
merges, the command leaves all files alone; if it merges, it leaves a backup of the design, and the
merged design in its place.
-/

namespace FormWeave.Command

variable {α β : Type} {files : FileSystem} {w v : World}

/-! ## 1. Actions -/

section

variable {action : Action (StateM World) α} {next : α → Action (StateM World) β} {a : α}

theorem run_bind_ok (h : action.run w = (Except.ok a, v)) :
    (action >>= next).run w = (next a).run v := by
  show ExceptT.bindCont next (action.run w).1 (action.run w).2 = (next a).run v
  rw [h]
  rfl

theorem run_bind_congr {other : Action (StateM World) α} (h : action.run w = other.run v) :
    (action >>= next).run w = (other >>= next).run v := by
  show ExceptT.bindCont next (action.run w).1 (action.run w).2 =
    ExceptT.bindCont next (other.run v).1 (other.run v).2
  rw [h]

theorem run_bind_error {error : CommandError} (h : action.run w = (Except.error error, v)) :
    (action >>= next).run w = (Except.error error, v) := by
  show ExceptT.bindCont next (action.run w).1 (action.run w).2 = (Except.error error, v)
  rw [h]
  rfl

theorem run_lift {call : StateM World α} (h : call w = (a, v)) :
    (liftM call : Action (StateM World) α).run w = (Except.ok a, v) := by
  show (Except.ok (call w).1, (call w).2) = _
  rw [h]

theorem run_reported {call : StateM World (Except Error α)} {result : Except Error α}
    (h : call w = (result, v)) :
    (reported call).run w = (result.mapError CommandError.reported, v) := by
  unfold reported
  refine (run_bind_ok (run_lift h)).trans ?_
  cases result <;> rfl

theorem sees_bind {b : Except CommandError β} (h : Sees files action.run (Except.ok a))
    (hnext : Sees files (next a).run b) : Sees files (action >>= next).run b := by
  show Sees files (action.run >>= ExceptT.bindCont next) b
  exact h.bind hnext

theorem sees_bind_error {error : CommandError} (h : Sees files action.run (Except.error error)) :
    Sees files (action >>= next).run (Except.error error) := by
  show Sees files (action.run >>= ExceptT.bindCont next) (Except.error error)
  exact h.bind (.pure _)

theorem sees_lift {call : StateM World α} (h : Sees files call a) :
    Sees files (liftM call : Action (StateM World) α).run (Except.ok a) := by
  show Sees files (call >>= fun value => pure (Except.ok value)) (Except.ok a)
  exact h.bind (.pure _)

theorem sees_reported {call : StateM World (Except Error α)} {result : Except Error α}
    (h : Sees files call result) :
    Sees files (reported call).run (result.mapError CommandError.reported) := by
  refine sees_bind (sees_lift h) ?_
  cases result <;> exact .pure _

theorem sees_forM {δ : Type} {action : δ → Action (StateM World) Unit}
    (h : ∀ item, Sees files (action item).run (Except.ok ())) (items : List δ) :
    Sees files (items.forM action).run (Except.ok ()) := by
  induction items with
  | nil => exact .pure _
  | cons item rest ih => exact sees_bind (h item) ih

end

/-! ## 2. What is told -/

theorem sees_say (text : String) : Sees files (say text).run (Except.ok ()) :=
  sees_lift (.print _)

theorem sees_complain (text : String) : Sees files (complain text).run (Except.ok ()) :=
  sees_lift (.complain _)

theorem sees_tellOutcome (t : Terminal) (outcome : MergeOutcome) (source design : String)
    (verbose : Bool) :
    Sees files (tellOutcome t outcome source design verbose).run (Except.ok ()) := by
  cases outcome with
  | noChanges => exact sees_say _
  | cancelled => exact sees_say _
  | report summary =>
    unfold tellOutcome
    dsimp only
    split
    · exact sees_say _
    · exact sees_bind (sees_complain _)
        (sees_bind (sees_forM sees_complain _) (sees_bind (sees_complain _) (sees_complain _)))
  | conflict summary =>
    exact sees_bind (sees_complain _) (sees_forM sees_complain _)
  | merged summary =>
    unfold tellOutcome
    dsimp only
    have hdetails : Sees files (if verbose = true then
        (Report.summaryLines t summary).forM complain else pure ()).run (Except.ok ()) := by
      split
      · exact sees_forM sees_complain _
      · exact .pure _
    refine sees_bind (sees_say _) ?_
    split
    · exact sees_bind (sees_complain _) hdetails
    · exact hdetails

theorem sees_tellMerge (t : Terminal) (verbose : Bool) (root source designPath : String)
    (format : OutputFormat) (diff : Bool) (design : Design) (outcome : MergeOutcome) :
    Sees files (tellMerge t verbose root source designPath format diff design outcome).run
      (Except.ok ()) := by
  cases format with
  | json => exact sees_say _
  | text =>
    refine sees_bind (sees_tellOutcome t outcome _ _ verbose) ?_
    split
    · split
      · exact sees_lift (.complain _)
      · exact .pure _
    · exact .pure _

/-! ## 3. What a merge finds -/

/-- A merge that was found: what there is to merge, and how that ends. -/
structure FoundMerge where
  designPath : String
  sourcePath : String
  design : Design
  outcome : MergeOutcome
  nodes : List Node

def FoundMerge.merged (found : FoundMerge) : Design := { found.design with nodes := found.nodes }

def FoundMerge.of (designPath sourcePath : String) (design : Design)
    (result : Except Error MergeOutcome × List Node) : Except Error FoundMerge :=
  result.1.map fun outcome => { designPath, sourcePath, design, outcome, nodes := result.2 }

/-- What a merge finds in a world: the settings and the design of the project, the edited source,
and the answer on the input if there is a question. Looking changes nothing. -/
def findMerge (root : String) (source : Option String) (mode : MergeMode) (w : World) :
    Except Error FoundMerge := do
  let settings ← (Project.loadSettingsOrDefault (m := StateM World) root w).1
  let designPath := Path.join root settings.design
  let sourcePath := source.getD (Path.join root settings.sourceFile)
  let design ← (Project.loadDesign (m := StateM World) designPath w).1
  let (content, rest) := Shell.read (m := StateM World) sourcePath w
  let answer := (World.takeLine rest).1.any isYes
  FoundMerge.of designPath sourcePath design
    (Merge.outcome settings mode content design.nodes answer)

theorem sees_loadProject {root : String} {result : Except Error Settings}
    (h : Sees files (Project.loadSettingsOrDefault root) result) :
    Sees files (loadProject root).run
      ((result.map fun settings => (settings, Path.join root settings.design)).mapError
        CommandError.reported) := by
  have hreported := sees_reported h
  cases result with
  | error error => exact sees_bind_error hreported
  | ok settings => exact sees_bind hreported (.pure _)

theorem sees_rootOf (arguments : Arguments) :
    Sees files (rootOf arguments).run
      (Except.ok (arguments.root.getD files.workingDirectory)) := by
  unfold rootOf
  cases arguments.root with
  | some root => exact .pure _
  | none =>
    refine sees_lift ?_
    rintro w rfl
    exact ⟨rfl, rfl, rfl⟩

theorem sees_mergedSource {root : String} {result : Except Error Settings}
    (h : Sees files (Project.loadSettingsOrDefault root) result) (source : Option String) :
    Sees files (mergedSource root source).run
      ((result.map fun settings => source.getD (Path.join root settings.sourceFile)).mapError
        CommandError.reported) := by
  have hproject := sees_loadProject h
  cases result with
  | error error => exact sees_bind_error hproject
  | ok settings => exact sees_bind hproject (.pure _)

/-! ## 4. The host at a terminal -/

theorem host_leaves (t : Terminal) (designPath : String) :
    Merge.Leaves (host (m := StateM World) t designPath) World.machine where
  confirm _ _ _ := World.machine_takeLine _
  message _ _ := rfl
  setModified _ := rfl
  refreshViews _ := rfl
  note note _ := World.machine_log note.event _

/-- The answer is the line that comes next. -/
theorem host_confirm (t : Terminal) (designPath : String) (h : v.input = w.input)
    (summary : MergeSummary) (text : String) :
    ((host (m := StateM World) t designPath).confirm summary text v).1 =
      (World.takeLine w).1.any isYes := by
  have hsame : ∀ u : World, u.input = w.input →
      (World.takeLine u).1.any isYes = (World.takeLine w).1.any isYes := by
    intro u hu
    rw [World.takeLine_congr hu]
  exact hsame _ h

/-! ## 5. Behind the merge -/

def finishMerge (t : Terminal) (verbose : Bool) (root source designPath : String)
    (format : OutputFormat) (diff : Bool) (design : Design)
    (ended : Except Error MergeOutcome × List Node) : Action (StateM World) Bool := do
  let outcome ← reported (pure ended.1)
  saveMerged design ended.2 designPath outcome
  tellMerge t verbose root source designPath format diff design outcome
  return isRefused outcome

variable (t : Terminal) (verbose : Bool) (root source designPath : String) (mode : MergeMode)
  (format : OutputFormat) (diff : Bool) (design : Design) {nodes : List Node}

theorem sees_finishMerge {outcome : MergeOutcome} (h : ∀ summary, outcome ≠ .merged summary) :
    Sees files (finishMerge t verbose root source designPath format diff design
      (.ok outcome, nodes)).run (Except.ok (isRefused outcome)) := by
  have hsaved : Sees files (saveMerged design nodes designPath outcome).run (Except.ok ()) := by
    cases outcome with
    | merged summary => exact absurd rfl (h summary)
    | _ => exact .pure _
  have htold : Sees files (tellMerge t verbose root source designPath format diff design
      outcome).run (Except.ok ()) := sees_tellMerge t verbose root source designPath format diff _ _
  exact sees_bind (sees_reported (.pure (Except.ok outcome)))
    (sees_bind hsaved (sees_bind htold (.pure _)))

/-- A merged design is saved before anything is told. -/
theorem finishMerge_merged {summary : MergeSummary}
    (h : Project.saveDesign (m := StateM World) { design with nodes } designPath w =
      (Except.ok (), v)) :
    ∃ u : World, u.machine = v.machine ∧
      (finishMerge t verbose root source designPath format diff design
        (.ok (.merged summary), nodes)).run w = (Except.ok false, u) := by
  have hlog : Sees v.files (liftM (Shell.log (m := StateM World)
      { level := .info, message := "saved merged design",
        fields := [("path", .plain designPath)] }) : Action (StateM World) Unit).run
      (Except.ok ()) := sees_lift (.log _)
  have htold : Sees v.files (do
      tellMerge t verbose root source designPath format diff design (.merged summary)
      return false : Action (StateM World) Bool).run (Except.ok false) :=
    sees_bind (sees_tellMerge t verbose root source designPath format diff design _) (.pure _)
  obtain ⟨v₁, hlogged, hmachine₁, -⟩ := hlog.run rfl
  obtain ⟨u, htold, hmachine, -⟩ := htold.run hmachine₁
  refine ⟨u, hmachine, ?_⟩
  have hsaved : (saveMerged (m := StateM World) design nodes designPath (.merged summary)).run w =
      (Except.ok (), v₁) := by
    unfold saveMerged
    dsimp only
    rw [run_bind_ok (run_reported h)]
    exact hlogged
  unfold finishMerge
  rw [run_bind_ok (run_reported rfl), run_bind_ok hsaved]
  exact htold

/-! ## 6. The command -/

/-- The command merges the nodes of the design with the source that it reads. -/
theorem runMerge_run {settings : Settings} {design : Design} (hmachine : v.machine = w.machine)
    (hinput : v.input = w.input)
    (hsettings : Sees w.files (Project.loadSettingsOrDefault root) (Except.ok settings))
    (hdesign : Sees w.files (Project.loadDesign (Path.join root settings.design))
      (Except.ok design)) :
    ∃ u : World, u.machine = w.machine ∧
      u.input = (Shell.read (m := StateM World) source w).2.input ∧
      let designPath := Path.join root settings.design
      let ended := Merge.run settings mode (host (m := StateM World) t designPath)
        (Shell.read (m := StateM World) source w).1 design.nodes u
      (runMerge (m := StateM World) t verbose root source mode format diff).run v =
        (finishMerge t verbose root source designPath format diff design ended.1).run ended.2 := by
  obtain ⟨v₁, hproject, hmachine₁, hinput₁⟩ := (sees_loadProject hsettings).run hmachine
  obtain ⟨v₂, hloaded, hmachine₂, hinput₂⟩ := (sees_reported hdesign).run hmachine₁
  obtain ⟨v₃, hmachine₃, hinput₃, hwarn⟩ : ∃ v₃ : World, v₃.machine = w.machine ∧
      v₃.input = v₂.input ∧
      ∀ rest : Action (StateM World) Bool, (if settings.mergeTags = true then rest else do
        complain (t.paint .yellow "warning:" ++
          " write_mergeback_data is disabled in formgen.toml; nothing to merge.")
        rest).run v₂ = rest.run v₃ := by
    -- The warning stands in front of everything else.
    by_cases htags : settings.mergeTags = true
    · exact ⟨v₂, hmachine₂, rfl, fun rest => by rw [if_pos htags]⟩
    · obtain ⟨v₃, hwarn, hmachine₃, hinput₃⟩ := (sees_complain (t.paint .yellow "warning:" ++
        " write_mergeback_data is disabled in formgen.toml; nothing to merge.")).run hmachine₂
      exact ⟨v₃, hmachine₃, hinput₃, fun rest => by rw [if_neg htags, run_bind_ok hwarn]⟩
  obtain ⟨u, hread, hmachine, hleft⟩ := World.exists_read hmachine₃
    (hinput₃.trans (hinput₂.trans (hinput₁.trans hinput))) source
  refine ⟨u, hmachine, hleft, ?_⟩
  unfold runMerge
  rw [run_bind_ok hproject]
  dsimp only
  rw [run_bind_ok hloaded, hwarn, run_bind_ok (run_lift hread)]
  rfl

theorem sees_runMerge_missing {settings : Settings} {error : Error}
    (hsettings : Sees files (Project.loadSettingsOrDefault root) (Except.ok settings))
    (hdesign : Sees files (Project.loadDesign (Path.join root settings.design))
      (Except.error error)) :
    Sees files (runMerge t verbose root source mode format diff).run
      (Except.error (.reported error)) :=
  sees_bind (sees_loadProject hsettings) (sees_bind_error (sees_reported hdesign))

/-- How a merge command ends, if it finds what it has to merge, or an error. -/
structure MergeEnds (found : Except Error FoundMerge) (before : World)
    (ran : Except CommandError Nat × World) : Prop where
  /-- An error is reported, and no file changes. -/
  failed : ∀ error, found = .error error →
    ran.1 = .error (.reported error) ∧ ran.2.files = before.files
  /-- Unless it merges, no file changes. -/
  unmerged : ∀ merge, found = .ok merge → (∀ summary, merge.outcome ≠ .merged summary) →
    ran.2.files = before.files
  /-- If it merges, the backup holds what the design file held, the design file holds the merged
  design, from which that can be loaded, and no other file differs. -/
  merged : ∀ merge summary, found = .ok merge → merge.outcome = .merged summary →
    ∃ old, before.files.find? merge.designPath = .ok (.file old) ∧
      Project.Saved before.files ran.2.files merge.designPath old
        (utf8 (merge.merged.render ++ "\n")) ∧
      (Project.loadDesign (m := StateM World) merge.designPath ran.2).1 = .ok merge.merged
  /-- The source is not written. -/
  source : ∀ merge entry, found = .ok merge →
    before.files.resolve merge.sourcePath ≠ before.files.resolve merge.designPath →
    before.files.resolve merge.sourcePath ≠ before.files.resolve (merge.designPath ++ ".bak") →
    (ran.2.files.find? merge.sourcePath = .ok entry ↔
      before.files.find? merge.sourcePath = .ok entry)
  error_iff : exitStatus ran.1 = 2 ↔ ∃ error, found = .error error
  /-- The status tells of edits that are only reported, and of those that are refused. -/
  refused_iff : exitStatus ran.1 = 1 ↔ ∃ merge summary, found = .ok merge ∧
    (merge.outcome = .report summary ∧ summary.hasChanges = true ∨
      merge.outcome = .conflict summary)
  status_le : exitStatus ran.1 ≤ 2

theorem isRefused_iff {outcome : MergeOutcome} : isRefused outcome = true ↔
    ∃ summary, outcome = .report summary ∧ summary.hasChanges = true ∨
      outcome = .conflict summary := by
  cases outcome <;> simp [isRefused]

namespace MergeEnds

variable {before : World}

theorem of_error {error : Error} (hfiles : w.files = before.files) :
    MergeEnds (.error error) before (.error (.reported error), w) where
  failed _ hother := ⟨congrArg _ (congrArg _ (Except.error.inj hother)), hfiles⟩
  unmerged := nofun
  merged := nofun
  source := nofun
  error_iff := ⟨fun _ => ⟨error, rfl⟩, fun _ => rfl⟩
  refused_iff := ⟨nofun, fun ⟨_, _, hfound, _⟩ => nomatch hfound⟩
  status_le := Nat.le_refl 2

theorem of_ok {merge : FoundMerge} {refused : Bool} (hrefused : refused = isRefused merge.outcome)
    (hunmerged : (∀ summary, merge.outcome ≠ .merged summary) → w.files = before.files)
    (hmerged : ∀ summary, merge.outcome = .merged summary →
      ∃ old, before.files.find? merge.designPath = .ok (.file old) ∧
        Project.Saved before.files w.files merge.designPath old
          (utf8 (merge.merged.render ++ "\n")) ∧
        (Project.loadDesign (m := StateM World) merge.designPath w).1 = .ok merge.merged) :
    MergeEnds (.ok merge) before (.ok (if refused = true then 1 else 0), w) where
  failed := nofun
  unmerged found hfound := by
    obtain rfl := Except.ok.inj hfound
    exact hunmerged
  merged found summary hfound := by
    obtain rfl := Except.ok.inj hfound
    exact hmerged summary
  source found entry hfound hdesign hbackup := by
    obtain rfl := Except.ok.inj hfound
    by_cases hmerge : ∃ summary, merge.outcome = .merged summary
    · obtain ⟨summary, hsummary⟩ := hmerge
      obtain ⟨old, -, hsaved, -⟩ := hmerged summary hsummary
      exact hsaved.elsewhere _ entry hdesign hbackup
    · show w.files.find? merge.sourcePath = .ok entry ↔ _
      rw [hunmerged fun summary hsummary => hmerge ⟨summary, hsummary⟩]
  error_iff := by
    cases refused <;> simp [exitStatus]
  refused_iff := by
    simp only [exitStatus, Except.ok.injEq, exists_and_left, exists_eq_left']
    rw [← isRefused_iff, ← hrefused]
    cases refused <;> simp
  status_le := by
    cases refused <;> simp [exitStatus]

end MergeEnds

def statusOf (refused : Bool) : Nat := if refused = true then 1 else 0

/-- Behind a merge, the design is saved if it can be saved. -/
theorem finishMerge_saves {design : Design} {summary : MergeSummary} {u : World}
    {ended : (Except Error MergeOutcome × List Node) × World}
    (hdesign : (Project.loadDesign (m := StateM World) designPath w).1 = .ok design)
    (hmachine : u.machine = w.machine)
    (hends : Merge.EndsAs (host (m := StateM World) t designPath) World.machine design.nodes u ended
      (.ok (.merged summary), nodes))
    (hsavable : Project.Savable w.files w.processNumber designPath) :
    ∃ v old, (finishMerge t verbose root source designPath format diff design ended.1).run ended.2 =
        (Except.ok false, v) ∧
      w.files.find? designPath = .ok (.file old) ∧
      Project.Saved w.files v.files designPath old
        (utf8 (({ design with nodes } : Design).render ++ "\n")) ∧
      (Project.loadDesign (m := StateM World) designPath v).1 = .ok { design with nodes } := by
  obtain ⟨ended, after⟩ := ended
  obtain ⟨hnodes, asked, hasked, hobserve, hok, -⟩ := hends.merged summary rfl
  obtain ⟨old, text, hold, -, hparse⟩ := Project.loadDesign_cases hdesign
  obtain ⟨hsame, hnumber⟩ := World.machine_eq_iff.1 (hasked.trans hmachine)
  -- The copy is made of the design file as it was loaded, and the save meets the files behind it.
  rw [← hsame] at hsavable hold
  rw [← hnumber] at hsavable
  obtain ⟨ready, hcheckpoint, hsave⟩ := Project.saved_run t { design with nodes } hsavable hold
  rw [hcheckpoint] at hobserve hok
  obtain rfl := hok rfl
  obtain ⟨saved, hrun, hsaved⟩ := hsave after hobserve
  obtain ⟨v, hkept, hfinish⟩ := finishMerge_merged t verbose root source designPath format diff
    design hrun
  rw [hsame] at hold hsaved
  rw [← (World.machine_eq_iff.1 hkept).1] at hsaved
  -- What a merge leaves is the loaded design with other texts.
  have hagain := Design.parse_settled hparse summary.blocks
  rw [← hnodes] at hagain
  exact ⟨v, old, hfinish, hold, hsaved, Project.loadDesign_of_text hsaved.design hagain⟩

/-- Behind a merge, the command ends as that did. -/
theorem finishMerge_ends {design : Design} {sourcePath : String} {u : World}
    {ended : (Except Error MergeOutcome × List Node) × World}
    {result : Except Error MergeOutcome × List Node}
    (hdesign : (Project.loadDesign (m := StateM World) designPath w).1 = .ok design)
    (hmachine : u.machine = w.machine)
    (hends : Merge.EndsAs (host (m := StateM World) t designPath) World.machine design.nodes u ended
      result)
    (hsavable : ∀ merge summary, FoundMerge.of designPath sourcePath design result = .ok merge →
      merge.outcome = .merged summary → Project.Savable w.files w.processNumber merge.designPath) :
    MergeEnds (FoundMerge.of designPath sourcePath design result) w
      ((do
        let refused ← finishMerge t verbose root source designPath format diff design ended.1
        return statusOf refused : Action (StateM World) Nat).run ended.2) := by
  obtain ⟨result, nodes⟩ := result
  cases result with
  | error error =>
    obtain ⟨hended, hsame⟩ := hends.unmerged nofun
    rw [hended]
    exact .of_error (World.machine_eq_iff.1 (hsame.trans hmachine)).1
  | ok outcome =>
    -- Only merged nodes are saved.
    by_cases hmerged : ∃ summary, outcome = .merged summary
    · obtain ⟨summary, rfl⟩ := hmerged
      obtain ⟨v, old, hrun, hold, hsaved, hloaded⟩ := finishMerge_saves t verbose root source
        designPath format diff hdesign hmachine hends (hsavable _ summary rfl rfl)
      rw [run_bind_ok hrun]
      exact .of_ok rfl (fun h => absurd rfl (h summary)) fun _ _ => ⟨old, hold, hsaved, hloaded⟩
    · have hnot : ∀ summary, outcome ≠ .merged summary := fun summary h => hmerged ⟨summary, h⟩
      obtain ⟨hended, hsame⟩ := hends.unmerged fun summary h => hnot summary (Except.ok.inj h)
      have hfinish : Sees ended.2.files (finishMerge t verbose root source designPath format diff
          design (.ok outcome, nodes)).run (Except.ok (isRefused outcome)) :=
        sees_finishMerge t verbose root source designPath format diff design hnot
      obtain ⟨v, hrun, hmachine', -⟩ := hfinish.run rfl
      have hfiles := (World.machine_eq_iff.1 (hmachine'.trans (hsame.trans hmachine))).1
      rw [hended, run_bind_ok hrun]
      exact .of_ok rfl (fun _ => hfiles) (fun summary h => absurd h (hnot summary))

theorem findMerge_of_settings {error : Error}
    (h : Sees w.files (Project.loadSettingsOrDefault root) (Except.error error))
    (source : Option String) : findMerge root source mode w = .error error := by
  rw [findMerge, (h w rfl).1]
  rfl

theorem findMerge_of_design {settings : Settings} {result : Except Error Design}
    (hsettings : Sees w.files (Project.loadSettingsOrDefault root) (Except.ok settings))
    (hdesign : Sees w.files (Project.loadDesign (Path.join root settings.design)) result)
    (source : Option String) :
    findMerge root source mode w = result.bind fun design =>
      let sourcePath := source.getD (Path.join root settings.sourceFile)
      let source := Shell.read (m := StateM World) sourcePath w
      FoundMerge.of (Path.join root settings.design) sourcePath design
        (Merge.outcome settings mode source.1 design.nodes
          ((World.takeLine source.2).1.any isYes)) := by
  rw [findMerge, (hsettings w rfl).1]
  show Except.bind (Project.loadDesign (m := StateM World) (Path.join root settings.design) w).1 _ = _
  rw [(hdesign w rfl).1]
  cases result <;> rfl

theorem distinctIds_loaded {path : String} {design : Design}
    (h : (Project.loadDesign (m := StateM World) path w).1 = .ok design) :
    (design.nodes.map Node.id).Nodup := by
  obtain ⟨_, _, _, _, hparse⟩ := Project.loadDesign_cases h
  obtain ⟨document, -, hdesign⟩ := Design.parse_cases hparse
  exact Design.distinctIds_ofDocument hdesign

/-- For all files, modes, answers and process numbers, the command ends as what it finds says,
provided that a design that was merged can be saved. -/
theorem merge_ends (t : Terminal) (arguments : Arguments) (mode : MergeMode)
    (source : Option String) (format : OutputFormat) (diff : Bool)
    (hcommand : arguments.command = some (.merge mode source format diff false)) (w : World)
    (hsavable : ∀ merge summary,
      findMerge (arguments.root.getD w.files.workingDirectory) source mode w = .ok merge →
      merge.outcome = .merged summary →
        Project.Savable w.files w.processNumber merge.designPath) :
    MergeEnds (findMerge (arguments.root.getD w.files.workingDirectory) source mode w) w
      ((run (m := StateM World) t arguments).run w) := by
  obtain ⟨root, hroot⟩ : ∃ root, arguments.root.getD w.files.workingDirectory = root := ⟨_, rfl⟩
  rw [hroot] at hsavable ⊢
  have hstart : Sees w.files (rootOf arguments).run (Except.ok root) :=
    hroot ▸ sees_rootOf arguments
  obtain ⟨w₁, hstart, hmachine₁, hinput₁⟩ := hstart.run rfl
  have hrun : (run (m := StateM World) t arguments).run w = (do
      let path ← mergedSource root source
      let refused ← runMerge t arguments.verbose root path mode format diff
      return statusOf refused : Action (StateM World) Nat).run w₁ := by
    unfold run
    rw [run_bind_ok hstart, hcommand]
    rfl
  rw [hrun]
  -- The settings are loaded twice, but from the same files.
  obtain ⟨found, hsettings⟩ := Project.exists_sees_settings w.files root
  cases found with
  | error error =>
    obtain ⟨v, hfail, hmachine, -⟩ := (sees_mergedSource hsettings source).run hmachine₁
    rw [findMerge_of_settings root mode hsettings source, run_bind_error hfail]
    exact .of_error (World.machine_eq_iff.1 hmachine).1
  | ok settings =>
    obtain ⟨w₂, hsource, hmachine₂, hinput₂⟩ := (sees_mergedSource hsettings source).run hmachine₁
    obtain ⟨loaded, hdesign⟩ := Project.exists_sees_design w.files (Path.join root settings.design)
    have hfound := findMerge_of_design root mode hsettings hdesign source
    rw [run_bind_ok hsource]
    cases loaded with
    | error error =>
      have hmissing := sees_runMerge_missing t arguments.verbose root
        (source.getD (Path.join root settings.sourceFile)) mode format diff hsettings hdesign
      obtain ⟨v, hfail, hmachine, -⟩ := hmissing.run hmachine₂
      rw [hfound, run_bind_error hfail]
      exact .of_error (World.machine_eq_iff.1 hmachine).1
    | ok design =>
      obtain ⟨u, hmachine, hinput, hmerge⟩ := runMerge_run t arguments.verbose root
        (source.getD (Path.join root settings.sourceFile)) mode format diff hmachine₂
        (hinput₂.trans hinput₁) hsettings hdesign
      rw [hfound] at hsavable ⊢
      rw [run_bind_congr hmerge]
      exact finishMerge_ends t arguments.verbose root _ _ format diff (hdesign w rfl).1 hmachine
        (Merge.endsAs_run (distinctIds_loaded (hdesign w rfl).1) (host_leaves t _)
          (host_confirm t _ hinput)) hsavable

/-! ## 7. A project with edited code -/

def sampleDocument : Document where
  items := [.mk none (.function "main()" "int" .pub) [.mk none (.code "return 0;") []]]

theorem loadable_sampleDocument : sampleDocument.Loadable where
  inRange := ⟨⟨trivial, ⟨trivial, trivial⟩, trivial⟩, trivial⟩
  fits := by decide +kernel
  sorted := List.Pairwise.nil

theorem ofDocument_sampleDocument : Design.ofDocument sampleDocument = .ok Design.sample := by
  refine Design.ofDocument_of_given [] Design.sample.nodes.toArray rfl rfl (by decide) ?_
  have hfree : Design.freeIds (Std.HashSet.ofList []) 2 = [⟨1⟩, ⟨2⟩] := by
    simp only [Design.freeIds, Std.HashSet.contains_ofList]
    rfl
  exact (congrArg (Design.number sampleDocument.resources · 1 #[]
    (Design.flatten sampleDocument.items)) hfree).trans rfl

theorem parse_sampleDocument :
    Design.parse (sampleDocument.render ++ "\n") = .ok Design.sample := by
  rw [Design.parse, Design.parse_line loadable_sampleDocument]
  show (Design.ofDocument sampleDocument).mapError Error.design = .ok Design.sample
  rw [ofDocument_sampleDocument]
  rfl

def editedSample : World where
  files :=
    { workingDirectory := "/work"
      entries :=
        [(["work", "formgen.toml"], .file (utf8 "write_mergeback_data = true\n")),
          (["work", "design.json"], .file (utf8 (sampleDocument.render ++ "\n"))),
          (["work", "design.cxx"], .file Merge.sampleEdit.render)] ++ Place.usual }
  processNumber := 4711

def editedSummary : MergeSummary :=
  .ofBlocks (changedBlocks Design.sample.nodes 0 Merge.sampleEdit.sections)

def mergedSample : Design :=
  { Design.sample with nodes := Design.sample.nodes.map (Node.settle editedSummary.blocks) }

theorem find?_editedSample : editedSample.files.find? "/work/design.json" =
    .ok (.file (utf8 (sampleDocument.render ++ "\n"))) := rfl

theorem savable_editedSample : Project.Savable editedSample.files editedSample.processNumber
    "/work/design.json" where
  design := ⟨["work", "design.json"], FileSystem.writable_eq_ok.1 rfl⟩
  backup := ⟨["work", "design.json.bak"], FileSystem.writable_eq_ok.1 rfl, nofun⟩
  temporary := ⟨["work", "design.json.tmp-4711"], FileSystem.writable_eq_ok.1 rfl, rfl⟩

theorem outcome_editedSample (answer : Bool) :
    Merge.outcome { mergeTags := true } .go (.ok Merge.sampleEdit.render) Design.sample.nodes
      answer = (.ok (.merged editedSummary), mergedSample.nodes) := by
  have hscan : Merge.scan Merge.sampleEdit.render Design.sample.nodes = .ok editedSummary :=
    Merge.scan_sampleEdit
  have hlands : (Merge.mergeable editedSummary).any (·.resolved) = true := by decide +kernel
  have hending : Merge.ending Design.sample.nodes editedSummary (.ok ()) =
      (.ok (.merged editedSummary), mergedSample.nodes) := by
    rw [Merge.ending_ok Design.distinctIds_sample (Merge.scan_resolved _ hscan).2, hlands]
    rfl
  exact (Merge.run_go rfl hscan (MergeHost.recording answer (.ok ())) []).trans hending

theorem findMerge_editedSample : findMerge "/work" none .go editedSample =
    .ok { designPath := "/work/design.json", sourcePath := "/work/design.cxx",
          design := Design.sample, outcome := .merged editedSummary,
          nodes := mergedSample.nodes } := by
  have hsettings : (Project.loadSettingsOrDefault (m := StateM World) "/work" editedSample).1 =
      .ok { mergeTags := true } := by decide +kernel
  have hdesign : (Project.loadDesign (m := StateM World) "/work/design.json" editedSample).1 =
      .ok Design.sample := Project.loadDesign_of_text find?_editedSample parse_sampleDocument
  have hread : Shell.read (m := StateM World) "/work/design.cxx" editedSample =
      (Except.ok Merge.sampleEdit.render, editedSample) := World.read_run rfl
  obtain ⟨_, hseen⟩ := Project.exists_sees_settings editedSample.files "/work"
  obtain rfl := (hseen editedSample rfl).1.symm.trans hsettings
  obtain ⟨_, hloaded⟩ := Project.exists_sees_design editedSample.files "/work/design.json"
  obtain rfl := (hloaded editedSample rfl).1.symm.trans hdesign
  have hdesignPath : Path.join "/work" ({ mergeTags := true } : Settings).design =
      "/work/design.json" := by decide +kernel
  have hsourcePath : Path.join "/work" ({ mergeTags := true } : Settings).sourceFile =
      "/work/design.cxx" := by decide +kernel
  rw [findMerge_of_design "/work" .go hseen (hdesignPath ▸ hloaded) none, hdesignPath]
  simp only [Except.bind, Option.getD_none, hsourcePath, hread, outcome_editedSample]
  rfl

theorem merge_ends_editedSample :
    ∃ ran, (run (m := StateM World) { colour := false }
        { command := some (.merge .go none .text false false) }).run editedSample = ran ∧
      exitStatus ran.1 = 0 ∧
      ran.2.files.find? ("/work/design.json" ++ ".bak") =
        .ok (.file (utf8 (sampleDocument.render ++ "\n"))) ∧
      ran.2.files.find? "/work/design.json" = .ok (.file (utf8 (mergedSample.render ++ "\n"))) ∧
      mergedSample.nodes.map (·.body) = [.function "main()" "int" .pub, .code "return 1;"] := by
  obtain ⟨ran, hran⟩ : ∃ ran, (run (m := StateM World) { colour := false }
      { command := some (.merge .go none .text false false) }).run editedSample = ran := ⟨_, rfl⟩
  have hends : MergeEnds (findMerge "/work" none .go editedSample) editedSample ran := by
    rw [← hran]
    refine merge_ends { colour := false } { command := some (.merge .go none .text false false) }
      .go none .text false rfl editedSample fun merge summary hmerge _ => ?_
    have hmerge' : findMerge "/work" none .go editedSample = .ok merge := hmerge
    rw [findMerge_editedSample] at hmerge'
    obtain rfl := Except.ok.inj hmerge'
    exact savable_editedSample
  rw [findMerge_editedSample] at hends
  obtain ⟨old, hold, hsaved, -⟩ := hends.merged _ _ rfl rfl
  rw [find?_editedSample] at hold
  obtain rfl := FileEntry.file.inj (Except.ok.inj hold)
  have herror : exitStatus ran.1 ≠ 2 := by
    rw [Ne, hends.error_iff]
    exact nofun
  have hrefused : exitStatus ran.1 ≠ 1 := by
    rw [Ne, hends.refused_iff]
    rintro ⟨merge, summary, hmerge, hrefused⟩
    obtain rfl := Except.ok.inj hmerge
    rcases hrefused with ⟨hreport, -⟩ | hconflict
    · cases hreport
    · cases hconflict
  have hle := hends.status_le
  exact ⟨ran, hran, by omega, hsaved.backup, hsaved.design, by decide +kernel⟩

end FormWeave.Command
