/-!
# Edit scripts

A shortest edit script between two sequences is found by searching for the middle of an optimal
path from both ends at once, and then for the scripts of the two halves. Afterwards insertions are
moved as far down as the sequences allow, after having been moved up.
-/

namespace FormWeave.Diff

inductive Action
  | keep | delete | insert
  deriving DecidableEq, Repr, Inhabited

structure Run where
  action : Action
  old : Nat
  new : Nat
  size : Nat
  deriving Repr, Inhabited

variable {α : Type} [BEq α]

def agreeForward (a b : Array α) (i j : Nat) : (limit : Nat) → Nat
  | 0 => 0
  | limit + 1 =>
    match a[i]?, b[j]? with
    | some x, some y => if x == y then agreeForward a b (i + 1) (j + 1) limit + 1 else 0
    | _, _ => 0

def agreeBackward (a b : Array α) : (i j limit : Nat) → Nat
  | i + 1, j + 1, limit + 1 =>
    match a[i]?, b[j]? with
    | some x, some y => if x == y then agreeBackward a b i j limit + 1 else 0
    | _, _ => 0
  | _, _, _ => 0

structure Box where
  oldStart : Nat
  oldStop : Nat
  newStart : Nat
  newStop : Nat

namespace Box

@[inline]
def width (box : Box) : Nat := box.oldStop - box.oldStart

@[inline]
def height (box : Box) : Nat := box.newStop - box.newStart

end Box

/-- The furthest places reached on the diagonals. Diagonal `corner` is the one that paths start on;
an element that is deleted leads to the next higher diagonal, one that is inserted to the next lower
one. -/
structure Frontier where
  reach : Array Nat
  corner : Nat

namespace Frontier

def start (limit : Nat) : Frontier :=
  { reach := Array.replicate (2 * limit + 2) 0, corner := limit }

@[inline]
def get (f : Frontier) (k : Nat) : Nat := f.reach.getD k 0

@[inline]
def set (f : Frontier) (k x : Nat) : Frontier := { f with reach := f.reach.setIfInBounds k x }

/-- Where a path of `d` steps may start on diagonal `k`: one step off a neighbour. -/
@[inline]
def origin (f : Frontier) (d k : Nat) : Nat :=
  if k + d == f.corner || (k != f.corner + d && f.get (k - 1) < f.get (k + 1)) then f.get (k + 1)
  else f.get (k - 1) + 1

@[inline]
def meets (f other : Frontier) (box : Box) (d k opposite : Nat) : Bool :=
  other.corner ≤ opposite + d && opposite ≤ other.corner + d &&
    box.width ≤ f.get k + other.get opposite

end Frontier

/-- Goes on from the start on diagonal `k` and returns the frontier with the place where the last
run of agreeing elements began. -/
@[inline]
def advanceForward (a b : Array α) (box : Box) (d : Nat) (f : Frontier) (k : Nat) :
    Frontier × Nat × Nat :=
  let x := f.origin d k
  let y := x + f.corner - k
  let run :=
    if x < box.width && y < box.height then
      agreeForward a b (box.oldStart + x) (box.newStart + y)
        (min (box.width - x) (box.height - y))
    else 0
  (f.set k (x + run), box.oldStart + x, box.newStart + y)

@[inline]
def advanceBackward (a b : Array α) (box : Box) (d : Nat) (f : Frontier) (k : Nat) :
    Frontier × Nat × Nat :=
  let x := f.origin d k
  let y := x + f.corner - k
  let run :=
    if x < box.width && y < box.height then
      agreeBackward a b (box.oldStop - x) (box.newStop - y)
        (min (box.width - x) (box.height - y))
    else 0
  (f.set k (x + run), box.oldStop - x - run, box.newStop - y - run)

/-- Goes on along `n` diagonals, which are every second one from `low` on. The highest comes first,
and the first where the paths from both ends meet is the last. -/
@[specialize]
def sweep (advance : Frontier → Nat → Frontier × Nat × Nat) (meets : Frontier → Nat → Bool)
    (low : Nat) : (n : Nat) → Frontier → Frontier × Option (Nat × Nat)
  | 0, f => (f, none)
  | n + 1, f =>
    let k := low + 2 * n
    let (f, x, y) := advance f k
    if meets f k then (f, some (x, y)) else sweep advance meets low n f

def middleFrom (a b : Array α) (box : Box) :
    (fuel d : Nat) → (forward backward : Frontier) → Option (Nat × Nat)
  | 0, _, _, _ => none
  | fuel + 1, d, forward, backward =>
    -- The numbers of a diagonal as seen from both corners have this sum.
    let both := forward.corner + backward.corner + box.width - box.height
    -- The paths meet on a step from the start if the sides of the box differ by an odd number, and
    -- else on one from the end.
    let odd := (box.width + box.height) % 2 == 1
    let meetsForward (f : Frontier) (k : Nat) : Bool :=
      odd && d != 0 && f.meets backward box (d - 1) k (both - k)
    let (forward, found) :=
      sweep (advanceForward a b box d) meetsForward (forward.corner - d) (d + 1) forward
    match found with
    | some place => some place
    | none =>
      let meetsBackward (f : Frontier) (k : Nat) : Bool :=
        !odd && f.meets forward box d k (both - k)
      let (backward, found) :=
        sweep (advanceBackward a b box d) meetsBackward (backward.corner - d) (d + 1) backward
      match found with
      | some place => some place
      | none => middleFrom a b box fuel (d + 1) forward backward

def middle (a b : Array α) (box : Box) : Option (Nat × Nat) :=
  let limit := (box.width + box.height + 1) / 2 + 1
  middleFrom a b box limit 0 (.start limit) (.start limit)

def runOf (action : Action) (old new size : Nat) : List Run :=
  if size == 0 then [] else [{ action, old, new, size }]

def scriptOf (a b : Array α) : (fuel : Nat) → Box → List Run
  | 0, box =>
    runOf .delete box.oldStart box.newStart box.width ++
      runOf .insert box.oldStart box.newStart box.height
  | fuel + 1, box =>
    -- What agrees at both ends is kept; only what stands between is searched.
    let head := agreeForward a b box.oldStart box.newStart (min box.width box.height)
    let rest := { box with oldStart := box.oldStart + head, newStart := box.newStart + head }
    let tail := agreeBackward a b rest.oldStop rest.newStop (min rest.width rest.height)
    let core := { rest with oldStop := rest.oldStop - tail, newStop := rest.newStop - tail }
    let inner :=
      if core.width == 0 then runOf .insert core.oldStart core.newStart core.height
      else if core.height == 0 then runOf .delete core.oldStart core.newStart core.width
      else
        match middle a b core with
        | some (x, y) =>
          scriptOf a b fuel { core with oldStop := x, newStop := y } ++
            scriptOf a b fuel { core with oldStart := x, newStart := y }
        | none =>
          runOf .delete core.oldStart core.newStart core.width ++
            runOf .insert core.oldStart core.newStart core.height
    runOf .keep box.oldStart box.newStart head ++ inner ++
      runOf .keep core.oldStop core.newStop tail

/-- A script with one run in view: the runs in front of it, last one first, and those behind. -/
structure View where
  before : List Run
  here : Run
  after : List Run

def View.keepBehind (view : View) (size old new : Nat) : List Run :=
  match view.after with
  | next :: rest =>
    if next.action = .keep then
      { next with old := next.old - size, new := next.new - size, size := next.size + size } :: rest
    else { action := .keep, old, new, size } :: view.after
  | [] => [{ action := .keep, old, new, size }]

def View.keepInFront (view : View) (size old new : Nat) : List Run :=
  match view.before with
  | previous :: rest =>
    if previous.action = .keep then { previous with size := previous.size + size } :: rest
    else { action := .keep, old, new, size } :: view.before
  | [] => [{ action := .keep, old, new, size }]

/-- How far the run in view can be moved up over a kept run: the ends have to agree. A deletion is
never moved over kept elements. -/
def View.roomAbove (a b : Array α) (view : View) (previous : Run) : Nat :=
  match view.here.action with
  | .insert =>
    agreeBackward a b (previous.old + previous.size) (view.here.new + view.here.size)
      (min previous.size view.here.size)
  | .keep | .delete => 0

def View.roomBelow (a b : Array α) (view : View) (next : Run) : Nat :=
  match view.here.action with
  | .insert => agreeForward a b next.old view.here.new (min next.size view.here.size)
  | .keep | .delete => 0

/-- Moves the run in view up as far as it goes. It joins runs of its kind and changes places with
those of the other kind. -/
def View.moveUp (a b : Array α) : (fuel : Nat) → View → View
  | 0, view => view
  | fuel + 1, view =>
    match view.before with
    | [] => view
    | previous :: before =>
      let here := view.here
      if previous.action = .keep then
        -- Moving up over `room` elements puts them behind the run in view.
        let room := view.roomAbove a b previous
        let left := previous.size - room
        if room == 0 && left != 0 then view
        else
          let after :=
            if room == 0 then view.after
            else
              view.keepBehind room (previous.old + left) (here.new + here.size - room)
          let before := if left == 0 then before else { previous with size := left } :: before
          moveUp a b fuel
            { before, here := { here with old := here.old - room, new := here.new - room }, after }
      else if previous.action = here.action then
        moveUp a b fuel
          { view with before, here := { previous with size := previous.size + here.size } }
      else moveUp a b fuel { before, here, after := previous :: view.after }

def View.moveDown (a b : Array α) : (fuel : Nat) → View → View
  | 0, view => view
  | fuel + 1, view =>
    match view.after with
    | [] => view
    | next :: after =>
      let here := view.here
      if next.action = .keep then
        -- Moving down over `room` elements puts them in front of the run in view.
        let room := view.roomBelow a b next
        let left := next.size - room
        if room == 0 && left != 0 then view
        else
          let before :=
            if room == 0 then view.before else view.keepInFront room next.old here.new
          let after :=
            if left == 0 then after
            else { next with old := next.old + room, new := next.new + room, size := left } :: after
          moveDown a b fuel
            { before, here := { here with old := here.old + room, new := here.new + room }, after }
      else if next.action = here.action then
        moveDown a b fuel { view with here := { here with size := here.size + next.size }, after }
      else moveDown a b fuel { before := next :: view.before, here, after }

def settle (a b : Array α) (action : Action) : (fuel : Nat) → (before after : List Run) → List Run
  | 0, before, after => before.reverse ++ after
  | _ + 1, before, [] => before.reverse
  | fuel + 1, before, run :: after =>
    if run.action = action then
      -- Up first, so that runs above are joined before the last place is looked for.
      let limit := 4 * (a.size + b.size) + 16
      let view := View.moveUp a b limit { before, here := run, after }
      let view := View.moveDown a b limit view
      settle a b action fuel (view.here :: view.before) view.after
    else settle a b action fuel (run :: before) after

/-- The runs of a script in the order in which they are shown: what is deleted between two kept
runs comes before what is inserted there. `inserted` waits for the next kept run. -/
def ordered (inserted : List Run) : List Run → List Run
  | [] => inserted.reverse
  | run :: rest =>
    match run.action with
    | .keep => inserted.reverse ++ run :: ordered [] rest
    | .delete => run :: ordered inserted rest
    | .insert => ordered (run :: inserted) rest

def script (a b : Array α) : List Run :=
  let whole : Box := { oldStart := 0, oldStop := a.size, newStart := 0, newStop := b.size }
  let found := scriptOf a b (a.size + b.size + 1) whole
  let limit := 4 * (a.size + b.size) + 16
  ordered [] (settle a b .insert limit [] (settle a b .delete limit [] found))

def changes (a b : Array α) : List (Action × α) :=
  (script a b).flatMap fun run =>
    match run.action with
    | .insert => ((b.extract run.new (run.new + run.size)).toList).map (Action.insert, ·)
    | action => ((a.extract run.old (run.old + run.size)).toList).map (action, ·)

end FormWeave.Diff
