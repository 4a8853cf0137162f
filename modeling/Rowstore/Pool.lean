import Rowstore.Page

/-!
# Page pools

The pages a database keeps in memory, and which transactions hold them.

* Each page that is read gets a frame of its own. Frames in the pool are in the order they were
  loaded, oldest first, and no two are of the same page.
* A page is loaded when there is room or when room can be made: the oldest page that is clean and
  held by nobody leaves. If there is none the pool is full.
* A page that has left the pool keeps its frame, because somebody may still be looking at it:
  `Pool.frame?` finds it by its number, and `Pool.page?` does not find it any more.
* A transaction holds a page or does not; holding it again changes nothing.
-/

namespace Rowstore

/-- A page in memory, with the number it was given when it was loaded. -/
structure Frame where
  number : Nat
  page : Page
deriving DecidableEq

/-- The pages in memory. -/
structure Pool where
  capacity : Nat
  /-- The frames of the pool, oldest first. -/
  frames : List Frame := []
  /-- The frames that have left the pool. -/
  retired : List Frame := []
  /-- The number the next frame gets. -/
  nextFrame : Nat := 0
  /-- Which transaction holds which page. -/
  holds : List (TxId × PageId) := []
deriving DecidableEq

namespace Pool

/-- The pages in the pool, oldest first. -/
def pages (p : Pool) : List Page := p.frames.map Frame.page

/-- The page with a number, if it is in the pool. -/
def page? (p : Pool) (id : PageId) : Option Page := p.pages.find? fun page => page.id = id

/-- The number of the frame a page is in, if it is in the pool. -/
def frameOf? (p : Pool) (id : PageId) : Option Nat :=
  (p.frames.find? fun f => f.page.id = id).map Frame.number

/-- The page in a frame, in the pool or not. -/
def frame? (p : Pool) (number : Nat) : Option Page :=
  ((p.frames ++ p.retired).find? fun f => f.number = number).map Frame.page

/-- Change the page with a number, if it is in the pool. -/
def modify (p : Pool) (id : PageId) (change : Page → Page) : Pool :=
  { p with frames := p.frames.map fun f =>
      if f.page.id = id then { f with page := change f.page } else f }

/-- Put a changed page back. -/
def put (p : Pool) (page : Page) : Pool := p.modify page.id fun _ => page

/-- Put a changed page back into its frame, in the pool or not. -/
def putFrame (p : Pool) (number : Nat) (page : Page) : Pool :=
  let change (f : Frame) : Frame := if f.number = number then { f with page } else f
  { p with frames := p.frames.map change, retired := p.retired.map change }

/-- Take a page out of the pool. -/
def discard (p : Pool) (id : PageId) : Pool :=
  { p with
    frames := p.frames.filter fun f => f.page.id ≠ id
    retired := p.retired ++ p.frames.filter fun f => f.page.id = id }

/-! ### Holding -/

/-- Whether a transaction holds a page. -/
def isHeldBy (p : Pool) (tx : TxId) (id : PageId) : Bool := decide ((tx, id) ∈ p.holds)

/-- Whether any transaction holds a page. -/
def isHeld (p : Pool) (id : PageId) : Bool := p.holds.any fun h => h.2 = id

/-- Let a transaction hold a page. -/
def hold (p : Pool) (tx : TxId) (id : PageId) : Pool :=
  { p with holds := p.holds.insert (tx, id) }

/-- End a transaction's hold on a page. -/
def release (p : Pool) (tx : TxId) (id : PageId) : Pool :=
  { p with holds := p.holds.filter fun h => h ≠ (tx, id) }

/-- End all holds of a transaction. -/
def releaseAll (p : Pool) (tx : TxId) : Pool :=
  { p with holds := p.holds.filter fun h => h.1 ≠ tx }

/-! ### Loading -/

/-- The page that leaves when there is no room: the oldest that is clean and held by nobody. -/
def victim? (p : Pool) : Option Page :=
  p.pages.find? fun page => !page.isDirty && !p.isHeld page.id

/-- Put a page into a new frame. -/
def push (p : Pool) (page : Page) : Pool :=
  { p with frames := p.frames ++ [⟨p.nextFrame, page⟩], nextFrame := p.nextFrame + 1 }

/-- Load a page that is not in the pool, making room for it if need be. -/
def load (p : Pool) (page : Page) : Except DbError Pool :=
  if p.frames.length < p.capacity then .ok (p.push page)
  else match p.victim? with
    | some victim => .ok ((p.discard victim.id).push page)
    | none => .error .bufferPoolFull

/-! ### What the operations do -/

theorem isHeldBy_hold_self (p : Pool) (tx : TxId) (id : PageId) :
    (p.hold tx id).isHeldBy tx id = true := by simp [isHeldBy, hold]

theorem isHeldBy_release (p : Pool) (tx tx' : TxId) (id id' : PageId) :
    (p.release tx id).isHeldBy tx' id' = (p.isHeldBy tx' id' && decide ((tx', id') ≠ (tx, id))) := by
  simp [isHeldBy, release]

theorem isHeldBy_releaseAll (p : Pool) (tx tx' : TxId) (id : PageId) :
    (p.releaseAll tx).isHeldBy tx' id = (p.isHeldBy tx' id && decide (tx' ≠ tx)) := by
  simp [isHeldBy, releaseAll]

@[simp] theorem pages_hold (p : Pool) (tx : TxId) (id : PageId) :
    (p.hold tx id).pages = p.pages := rfl

@[simp] theorem pages_release (p : Pool) (tx : TxId) (id : PageId) :
    (p.release tx id).pages = p.pages := rfl

@[simp] theorem pages_releaseAll (p : Pool) (tx : TxId) : (p.releaseAll tx).pages = p.pages := rfl

@[simp] theorem pages_push (p : Pool) (page : Page) : (p.push page).pages = p.pages ++ [page] := by
  simp [pages, push]

@[simp] theorem pages_discard (p : Pool) (id : PageId) :
    (p.discard id).pages = p.pages.filter fun page => page.id ≠ id := by
  simp [pages, discard, List.filter_map, Function.comp_def]

@[simp] theorem pages_modify (p : Pool) (id : PageId) (change : Page → Page) :
    (p.modify id change).pages =
      p.pages.map fun page => if page.id = id then change page else page := by
  simp only [pages, modify, List.map_map]
  apply List.map_congr_left
  intro f _
  simp only [Function.comp]
  split <;> rfl

end Pool

end Rowstore
