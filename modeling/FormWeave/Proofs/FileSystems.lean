import FormWeave.Project.Shell
import FormWeave.Proofs.PathNames

/-!
# What changes of a file system leave alone

A path leads to a place if everything on the way is a directory. Writing, moving and dropping files
makes and removes no directory, so every path goes on leading where it led before, and what stands
there is the same unless it is one of the places that were changed.
-/

namespace FormWeave

theorem Bytes.splice_end (content bytes : Bytes) :
    Bytes.splice content content.length bytes = content ++ bytes := by
  simp [Bytes.splice]

end FormWeave

namespace FormWeave.FileSystem

variable {fs before middle after : FileSystem} {path : String} {place other : Place}

/-! ## 1. Entries -/

theorem lookup_filter_key (keep : Place → Bool) (entries : List (Place × FileEntry))
    (other : Place) : (entries.filter fun entry => keep entry.1).lookup other =
      if keep other then entries.lookup other else none := by
  induction entries with
  | nil => simp
  | cons entry rest ih =>
    obtain ⟨key, value⟩ := entry
    rw [List.filter_cons, List.lookup_cons]
    cases hkey : other == key with
    | true =>
      obtain rfl := beq_iff_eq.1 hkey
      cases hkeep : keep other with
      | true => simp
      | false => simp [ih, hkeep]
    | false =>
      cases keep key with
      | true => simp [List.lookup_cons, hkey, ih]
      | false => simp [ih]

theorem at?_eq_directory (h : place <+: fs.home) : fs.at? place = some .directory := by
  rw [at?, if_pos (List.isPrefixOf_iff_prefix.2 h)]

theorem at?_put (h : fs.at? place ≠ some .directory) (entry : FileEntry) (other : Place) :
    (fs.put place entry).at? other = if other = place then some entry else fs.at? other := by
  have hhome : (fs.put place entry).home = fs.home := rfl
  rw [at?, hhome]
  by_cases hother : other = place
  · -- A place that holds no directory is not on the way to the working directory.
    have hfree : ¬ other.isPrefixOf fs.home = true := by
      intro hprefix
      rw [hother] at hprefix
      exact h (at?_eq_directory (List.isPrefixOf_iff_prefix.1 hprefix))
    rw [if_neg hfree, if_pos hother, put, hother]
    simp
  · have hkept : (other == place) = false := beq_eq_false_iff_ne.2 hother
    rw [if_neg hother, at?, put]
    dsimp only
    rw [List.lookup_cons, hkept]
    dsimp only
    rw [lookup_filter_key (· != place), bne, hkept]
    rfl

theorem at?_drop (h : fs.at? place ≠ some .directory) (other : Place) :
    (fs.drop place).at? other = if place <+: other then none else fs.at? other := by
  have hhome : (fs.drop place).home = fs.home := rfl
  rw [at?, hhome, drop]
  dsimp only
  rw [lookup_filter_key (fun key => !place.isPrefixOf key)]
  by_cases hbelow : place <+: other
  · have hfree : ¬ other.isPrefixOf fs.home = true := by
      intro hprefix
      exact h (at?_eq_directory (hbelow.trans (List.isPrefixOf_iff_prefix.1 hprefix)))
    rw [if_pos hbelow, if_neg hfree, List.isPrefixOf_iff_prefix.2 hbelow]
    rfl
  · have hkept : place.isPrefixOf other = false := by
      rw [← Bool.not_eq_true, List.isPrefixOf_iff_prefix]
      exact hbelow
    rw [if_neg hbelow, hkept, at?]
    rfl

/-! ## 2. Where paths lead -/

def Reachable (fs : FileSystem) (place : Place) : Prop :=
  ∀ above, above <+: place → above ≠ place → fs.at? above = some .directory

theorem reachable_root : fs.Reachable [] := fun _ habove hne =>
  absurd (List.prefix_nil.1 habove) hne

theorem reachable_home : fs.Reachable fs.home := fun _ habove _ => at?_eq_directory habove

theorem Reachable.dropLast (h : fs.Reachable place) : fs.Reachable place.dropLast := by
  intro above habove hne
  refine h above (habove.trans (List.dropLast_prefix place)) ?_
  rintro rfl
  exact hne (habove.eq_of_length_le (by simp))

theorem Reachable.push (h : fs.Reachable place) (hplace : fs.at? place = some .directory)
    (name : String) : fs.Reachable (place ++ [name]) := by
  intro above habove hne
  rcases List.prefix_concat_iff.1 habove with rfl | hprefix
  · exact absurd rfl hne
  · by_cases hsame : above = place
    · rw [hsame]
      exact hplace
    · exact h above hprefix hsame

def enter (place : Place) : Path.Component → Place
  | .root | .here => place
  | .up => place.dropLast
  | .name text => place ++ [String.ofList text]

theorem Reachable.enter (h : fs.Reachable place) (hplace : fs.at? place = some .directory)
    (component : Path.Component) : fs.Reachable (enter place component) := by
  cases component with
  | root => exact h
  | here => exact h
  | up => exact h.dropLast
  | name text => exact h.push hplace _

theorem follow_cons_ok {component : Path.Component} {rest : List Path.Component} :
    fs.follow place (component :: rest) = .ok other ↔
      fs.at? place = some .directory ∧ fs.follow (enter place component) rest = .ok other := by
  rcases hplace : fs.at? place with _ | _ | _ | _
  · simp [follow, hplace]
  · simp [follow, hplace]
  · cases component <;> simp [follow, hplace, enter]
  · simp [follow, hplace]

theorem Reachable.follow (h : fs.Reachable place) {components : List Path.Component}
    (hfollow : fs.follow place components = .ok other) : fs.Reachable other := by
  induction components generalizing place with
  | nil =>
    obtain rfl := Except.ok.inj hfollow
    exact h
  | cons component rest ih =>
    obtain ⟨hplace, hrest⟩ := follow_cons_ok.1 hfollow
    exact ih (h.enter hplace component) hrest

theorem follow_append {front back : List Path.Component} :
    fs.follow place (front ++ back) = .ok other ↔
      ∃ middle, fs.follow place front = .ok middle ∧ fs.follow middle back = .ok other := by
  induction front generalizing place with
  | nil => simp [follow]
  | cons component rest ih =>
    rw [List.cons_append, follow_cons_ok, ih]
    simp only [follow_cons_ok]
    grind

theorem resolve_eq_ok : fs.resolve path = .ok place ↔
    ∃ start, fs.origin path = .ok start ∧ fs.follow start (Path.components path) = .ok place := by
  rw [resolve]
  cases fs.origin path with
  | error fault => simp [bind, Except.bind]
  | ok start => simp [bind, Except.bind]

theorem reachable_origin {start : Place} (h : fs.origin path = .ok start) : fs.Reachable start := by
  unfold origin at h
  iterate 3 split at h; · cases h
  obtain rfl := Except.ok.inj h
  split
  · exact reachable_root
  · exact reachable_home

theorem reachable_resolve (h : fs.resolve path = .ok place) : fs.Reachable place := by
  obtain ⟨start, horigin, hfollow⟩ := resolve_eq_ok.1 h
  exact (reachable_origin horigin).follow hfollow

theorem find?_eq_ok {entry : FileEntry} : fs.find? path = .ok entry ↔
    ∃ place, fs.resolve path = .ok place ∧ fs.at? place = some entry ∧
      (namesDirectory path = true → entry = .directory) := by
  rw [find?]
  cases fs.resolve path with
  | error fault => simp [bind, Except.bind]
  | ok place =>
    simp only [bind, Except.bind, Except.ok.injEq, exists_eq_left']
    rcases fs.at? place with _ | _ | _ | _
    · simp [throw, throwThe, MonadExceptOf.throw]
    · cases namesDirectory path <;> simp [throw, throwThe, MonadExceptOf.throw, pure, Except.pure]
      grind
    · simp [pure, Except.pure]
      grind
    · cases namesDirectory path <;> simp [throw, throwThe, MonadExceptOf.throw, pure, Except.pure]
      grind

/-! ## 3. Changes of a few places -/

/-- File systems with the same directories, and with the same entries at all places that can be
reached but the changed ones. -/
structure SameBut (changed : List Place) (before after : FileSystem) : Prop where
  workingDirectory : after.workingDirectory = before.workingDirectory
  directory : ∀ place, before.Reachable place →
    (after.at? place = some .directory ↔ before.at? place = some .directory)
  entry : ∀ place, before.Reachable place → place ∉ changed → after.at? place = before.at? place

namespace SameBut

variable {changed more : List Place}

theorem refl (changed : List Place) (fs : FileSystem) : SameBut changed fs fs :=
  ⟨rfl, fun _ _ => Iff.rfl, fun _ _ _ => rfl⟩

theorem home (h : SameBut changed before after) : after.home = before.home := by
  rw [FileSystem.home, FileSystem.home, h.workingDirectory]

theorem reachable (h : SameBut changed before after) (hplace : before.Reachable place) :
    after.Reachable place := by
  intro above habove hne
  -- What stands above can be reached as well.
  have hthere : before.Reachable above := by
    intro other hother hdiffer
    refine hplace other (hother.trans habove) ?_
    rintro rfl
    exact hne (habove.eq_of_length_le hother.length_le)
  exact (h.directory above hthere).2 (hplace above habove hne)

theorem mono (h : SameBut changed before after) (hmore : changed ⊆ more) :
    SameBut more before after :=
  ⟨h.workingDirectory, h.directory, fun place hplace hnot =>
    h.entry place hplace fun hchanged => hnot (hmore hchanged)⟩

theorem trans (h : SameBut changed before middle) (h' : SameBut changed middle after) :
    SameBut changed before after where
  workingDirectory := h'.workingDirectory.trans h.workingDirectory
  directory place hplace :=
    (h'.directory place (h.reachable hplace)).trans (h.directory place hplace)
  entry place hplace hnot :=
    (h'.entry place (h.reachable hplace) hnot).trans (h.entry place hplace hnot)

/-- A place that holds what it held before did not change. -/
theorem restored (h : SameBut (place :: changed) before after)
    (hplace : after.at? place = before.at? place) : SameBut changed before after := by
  refine ⟨h.workingDirectory, h.directory, fun other hother hnot => ?_⟩
  by_cases hsame : other = place
  · rw [hsame, hplace]
  · exact h.entry other hother (by simp [hsame, hnot])

theorem follow (h : SameBut changed before after) {components : List Path.Component}
    (hplace : before.Reachable place) :
    after.follow place components = .ok other ↔ before.follow place components = .ok other := by
  induction components generalizing place with
  | nil => rfl
  | cons component rest ih =>
    rw [follow_cons_ok, follow_cons_ok, h.directory place hplace]
    exact and_congr_right fun hdirectory => ih (hplace.enter hdirectory component)

theorem origin (h : SameBut changed before after) (path : String) :
    after.origin path = before.origin path := by
  rw [FileSystem.origin, FileSystem.origin, h.home]

/-- Paths go on leading where they led. -/
theorem resolve (h : SameBut changed before after) :
    after.resolve path = .ok place ↔ before.resolve path = .ok place := by
  rw [resolve_eq_ok, resolve_eq_ok, h.origin]
  exact exists_congr fun start => and_congr_right fun horigin =>
    h.follow (reachable_origin horigin)

/-- A path that leads to none of the changed places finds what it found. -/
theorem find? (h : SameBut changed before after) {entry : FileEntry}
    (hpath : ∀ place ∈ changed, before.resolve path ≠ .ok place) :
    after.find? path = .ok entry ↔ before.find? path = .ok entry := by
  rw [find?_eq_ok, find?_eq_ok]
  refine exists_congr fun place => ?_
  rw [h.resolve]
  refine and_congr_right fun hresolve => ?_
  have hplace : place ∉ changed := fun hchanged => hpath place hchanged hresolve
  rw [h.entry place (reachable_resolve hresolve) hplace]

end SameBut

theorem sameBut_put (h : fs.at? place ≠ some .directory) (content : Bytes) :
    SameBut [place] fs (fs.put place (.file content)) where
  workingDirectory := rfl
  directory other _ := by
    rw [at?_put h]
    by_cases hsame : other = place
    · simp [hsame, h]
    · rw [if_neg hsame]
  entry other _ hother := by rw [at?_put h, if_neg (by simpa using hother)]

/-- Nothing below a place can be reached unless it is a directory. -/
theorem sameBut_drop (h : fs.at? place ≠ some .directory) : SameBut [place] fs (fs.drop place) := by
  have hbelow : ∀ other, fs.Reachable other → place <+: other → other = place := by
    intro other hother hprefix
    by_cases hne : other = place
    · exact hne
    · exact absurd (hother place hprefix (Ne.symm hne)) h
  refine ⟨rfl, fun other hother => ?_, fun other hother hnot => ?_⟩
  · rw [at?_drop h]
    split
    · next hprefix => simp [hbelow other hother hprefix, h]
    · rfl
  · rw [at?_drop h, if_neg]
    intro hprefix
    exact hnot (by simp [hbelow other hother hprefix])

/-! ## 4. Files -/

/-- A path at which a file can stand, and the place where it stands then. -/
structure Slot (fs : FileSystem) (path : String) (place : Place) : Prop where
  leads : fs.resolve path = .ok place
  free : fs.at? place ≠ some .directory
  named : Path.ending path = .name
  possible : isPossible place = true

theorem writable_eq_ok : fs.writable path = .ok place ↔ fs.Slot path place := by
  have hcases : ∀ {found}, fs.resolve path = .ok found →
      (fs.writable path = .ok place ↔ fs.at? found ≠ some .directory ∧
        Path.ending path = .name ∧ isPossible found = true ∧ found = place) := by
    intro found hfound
    rw [writable, hfound]
    simp only [bind, Except.bind]
    rcases fs.at? found with _ | _ | _ | _ <;> cases Path.ending path <;>
      cases isPossible found <;> simp [throw, throwThe, MonadExceptOf.throw, pure, Except.pure]
  constructor
  · intro h
    cases hfound : fs.resolve path with
    | error fault =>
      rw [writable, hfound] at h
      cases h
    | ok found =>
      obtain ⟨hfree, hnamed, hpossible, rfl⟩ := (hcases hfound).1 h
      exact ⟨hfound, hfree, hnamed, hpossible⟩
  · intro h
    exact (hcases h.leads).2 ⟨h.free, h.named, h.possible, rfl⟩

/-- A file can be moved to where it can be written. -/
theorem movable_eq_ok : fs.movable path = .ok place ↔ fs.Slot path place := by
  rw [← writable_eq_ok, movable, writable]
  cases fs.resolve path with
  | error fault => rfl
  | ok found =>
    simp only [bind, Except.bind]
    rcases fs.at? found with _ | _ | _ | _ <;> cases Path.ending path <;>
      cases isPossible found <;> simp [throw, throwThe, MonadExceptOf.throw, pure, Except.pure]

theorem SameBut.slot {changed : List Place} (h : SameBut changed before after) :
    after.Slot path place ↔ before.Slot path place := by
  have hfree : before.resolve path = .ok place →
      (after.at? place = some .directory ↔ before.at? place = some .directory) :=
    fun hleads => h.directory place (reachable_resolve hleads)
  constructor
  · rintro ⟨hleads, hplace, hnamed, hpossible⟩
    have hleads' := h.resolve.1 hleads
    exact ⟨hleads', fun hd => hplace ((hfree hleads').2 hd), hnamed, hpossible⟩
  · rintro ⟨hleads, hplace, hnamed, hpossible⟩
    exact ⟨h.resolve.2 hleads, fun hd => hplace ((hfree hleads).1 hd), hnamed, hpossible⟩

namespace Slot

variable {content : Bytes}

/-- A place has the last name of the path. -/
theorem endsIn (h : fs.Slot path place) :
    ∃ name, Path.EndsIn path name ∧ place.getLast? = some name := by
  obtain ⟨name, hname⟩ := Path.endsIn_of_ending h.named
  obtain ⟨front, hcomponents⟩ := hname.components
  obtain ⟨start, -, hfollow⟩ := resolve_eq_ok.1 h.leads
  rw [hcomponents] at hfollow
  obtain ⟨middle, -, hlast⟩ := follow_append.1 hfollow
  obtain ⟨-, hplace⟩ := follow_cons_ok.1 hlast
  refine ⟨name, hname, ?_⟩
  obtain rfl := Except.ok.inj hplace
  simp [enter]

/-- A path at which a file can stand finds what stands there. -/
theorem find? (h : fs.Slot path place) {entry : FileEntry} :
    fs.find? path = .ok entry ↔ fs.at? place = some entry := by
  have hnamed : namesDirectory path = false := by rw [namesDirectory, h.named]
  rw [find?_eq_ok, h.leads, hnamed]
  simp

theorem read (h : fs.Slot path place) (hfile : fs.at? place = some (.file content)) :
    fs.read path = .ok content := by
  rw [FileSystem.read, h.find?.2 hfile]
  rfl

theorem device? (h : fs.Slot path place) (hplain : ∀ device, fs.at? place ≠ some (.device device)) :
    fs.device? path = none := by
  rw [FileSystem.device?]
  split
  · next device hfound => exact absurd (h.find?.1 hfound) (hplain device)
  · rfl

theorem write (h : fs.Slot path place) (hplain : ∀ device, fs.at? place ≠ some (.device device))
    (content : Bytes) : fs.write path content = .ok (fs.put place (.file content)) := by
  rw [FileSystem.write, writable_eq_ok.2 h]
  simp only [bind, Except.bind]
  split
  · next hfull => exact absurd hfull (hplain _)
  · next device _ hdevice => exact absurd hdevice (hplain device)
  · rfl

theorem overwrite (h : fs.Slot path place) (hfile : fs.at? place = some (.file content))
    (position : Nat) (bytes : Bytes) : fs.overwrite path position bytes =
      .ok (fs.put place (.file (Bytes.splice content position bytes))) := by
  rw [FileSystem.overwrite, h.read hfile]
  exact h.write (fun device hdevice => by simp [hfile] at hdevice) _

theorem sync (h : fs.Slot path place) (hfile : fs.at? place = some (.file content)) :
    fs.sync path = .ok () := by
  rw [FileSystem.sync, h.find?.2 hfile]
  rfl

theorem rename {target : String} (h : fs.Slot path place)
    (hfile : fs.at? place = some (.file content)) (htarget : fs.Slot target other) :
    fs.rename path target = .ok ((fs.drop place).put other (.file content)) := by
  rw [FileSystem.rename, h.read hfile, h.leads, movable_eq_ok.2 htarget]
  rfl

end Slot

/-- Writing leaves a device alone, and puts a file where no device stands. -/
theorem write_cases {content : Bytes} (h : fs.write path content = .ok after) :
    ∃ place, fs.Slot path place ∧ ((∃ device, fs.at? place = some (.device device)) ∧ after = fs ∨
      after = fs.put place (.file content)) := by
  cases hplace : fs.writable path with
  | error fault =>
    rw [write, hplace] at h
    cases h
  | ok place =>
    refine ⟨place, writable_eq_ok.1 hplace, ?_⟩
    rw [write, hplace] at h
    simp only [bind, Except.bind] at h
    split at h
    · next hfull =>
      split at h
      · exact .inl ⟨⟨_, hfull⟩, (Except.ok.inj h).symm⟩
      · cases h
    · next device _ hdevice => exact .inl ⟨⟨_, hdevice⟩, (Except.ok.inj h).symm⟩
    · exact .inr (Except.ok.inj h).symm

end FormWeave.FileSystem

/-! ## 5. Files of a world -/

namespace FormWeave.World

variable {w : World} {path : String} {place : Place} {content : Bytes}

def putFile (w : World) (place : Place) (content : Bytes) : World :=
  { w with files := w.files.put place (.file content) }

theorem bind_run {α β : Type} {call : StateM World α} {next : α → StateM World β} {v : World}
    {a : α} (h : call w = (a, v)) : (call >>= next) w = next a v := by
  show next (call w).1 (call w).2 = next a v
  rw [h]

/-- The world apart from its terminal. -/
def machine (w : World) : FileSystem × Nat := (w.files, w.processNumber)

theorem machine_eq_iff {v w : World} :
    v.machine = w.machine ↔ v.files = w.files ∧ v.processNumber = w.processNumber :=
  Prod.mk.injEq .. ▸ Iff.rfl

/-- Logging adds to what was written. -/
theorem log_run (event : LogEvent) (w : World) :
    ∃ errors, Shell.log (m := StateM World) event w = ((), ({ w with errors } : World)) := by
  by_cases hlogged : (w.verbose || event.level = .warn) = true
  · refine ⟨w.errors.push (Log.render w.colour event), ?_⟩
    show ((), if _ then _ else _) = _
    rw [if_pos hlogged]
  · refine ⟨w.errors, ?_⟩
    show ((), if _ then _ else _) = _
    rw [if_neg hlogged]

theorem machine_log (event : LogEvent) (w : World) :
    (Shell.log (m := StateM World) event w).2.machine = w.machine := by
  obtain ⟨errors, hlog⟩ := log_run event w
  rw [hlog]
  rfl

theorem change_error {f : FileSystem → Except FileFault FileSystem} {fault : FileFault}
    (h : f w.files = .error fault) : change f w = (Except.error fault, w) := by
  rw [change, h]

theorem change_ok {f : FileSystem → Except FileFault FileSystem} {files : FileSystem}
    (h : f w.files = .ok files) : change f w = (Except.ok (), ({ w with files } : World)) := by
  rw [change, h]

theorem create_run (h : w.files.Slot path place)
    (hplain : ∀ device, w.files.at? place ≠ some (.device device)) :
    Shell.create (m := StateM World) path w = (Except.ok (), w.putFile place []) :=
  change_ok (h.write hplain [])

/-- Reading changes nothing, unless it takes what is left of standard input. -/
theorem read_eq (path : String) (w : World) : Shell.read (m := StateM World) path w =
    if w.files.device? path = some .input then (Except.ok w.input, { w with input := [] })
    else (w.files.read path, w) := by
  by_cases hdevice : w.files.device? path = some .input
  · simp [Shell.read, get, getThe, MonadStateOf.get, StateT.get, bind, StateT.bind, hdevice, pure,
      modifyGet, MonadStateOf.modifyGet, StateT.modifyGet]
  · simp only [Shell.read, get, getThe, MonadStateOf.get, StateT.get, bind, StateT.bind, pure,
      hdevice, if_false]
    rfl

theorem read_run (h : w.files.find? path = .ok (.file content)) :
    Shell.read (m := StateM World) path w = (Except.ok content, w) := by
  have hdevice : w.files.device? path = none := by rw [FileSystem.device?, h]
  rw [read_eq, hdevice, if_neg (by simp), FileSystem.read, h]
  rfl

theorem overwrite_run (h : w.files.Slot path place)
    (hfile : w.files.at? place = some (.file content)) (position : Nat) (bytes : Bytes) :
    Shell.overwrite (m := StateM World) path position bytes w =
      (Except.ok (), w.putFile place (Bytes.splice content position bytes)) := by
  have hplain : w.files.device? path = none :=
    h.device? fun device hdevice => by simp [hfile] at hdevice
  have hoverwrite : Shell.overwrite (m := StateM World) path position bytes w =
      change (·.overwrite path position bytes) w := by
    simp [Shell.overwrite, get, getThe, MonadStateOf.get, StateT.get, bind, StateT.bind, pure,
      hplain]
  rw [hoverwrite]
  exact change_ok (h.overwrite hfile position bytes)

/-- A file that is written holds what was written, and nothing else changes. -/
theorem write_run (h : w.files.Slot path place)
    (hplain : ∀ device, w.files.at? place ≠ some (.device device)) (content : Bytes) :
    ∃ files, Shell.write (m := StateM World) path content w =
        (Except.ok (), ({ w with files } : World)) ∧
      FileSystem.SameBut [place] w.files files ∧ files.at? place = some (.file content) := by
  have hempty := FileSystem.sameBut_put h.free []
  have hslot : (w.putFile place []).files.Slot path place := hempty.slot.2 h
  have hfile : (w.putFile place []).files.at? place = some (.file []) := by
    rw [putFile, FileSystem.at?_put h.free, if_pos rfl]
  have hsplice : Bytes.splice [] 0 content = content := Bytes.splice_end [] content
  refine ⟨_, (bind_run (create_run h hplain)).trans (overwrite_run hslot hfile 0 content), ?_, ?_⟩
  · exact hempty.trans (FileSystem.sameBut_put hslot.free _)
  · rw [hsplice, FileSystem.at?_put hslot.free, if_pos rfl]

/-- A file that is moved stands at the new place only, and nothing else changes. -/
theorem rename_run {target : String} {other : Place} (h : w.files.Slot path place)
    (hfile : w.files.at? place = some (.file content)) (htarget : w.files.Slot target other)
    (hne : place ≠ other) :
    ∃ files, Shell.rename (m := StateM World) path target w =
        (Except.ok (), ({ w with files } : World)) ∧
      FileSystem.SameBut [place, other] w.files files ∧ files.at? place = none ∧
      files.at? other = some (.file content) := by
  have hdropped := FileSystem.sameBut_drop h.free
  have hput := FileSystem.sameBut_put (hdropped.slot.2 htarget).free content
  refine ⟨_, change_ok (f := (·.rename path target)) (h.rename hfile htarget), ?_, ?_, ?_⟩
  · exact (hdropped.mono (by simp)).trans (hput.mono (by simp))
  · rw [FileSystem.at?_put (hdropped.slot.2 htarget).free, if_neg hne,
      FileSystem.at?_drop h.free, if_pos List.prefix_rfl]
  · rw [FileSystem.at?_put (hdropped.slot.2 htarget).free, if_pos rfl]

end FormWeave.World
