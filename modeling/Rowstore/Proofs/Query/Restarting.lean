import Mathlib
import Rowstore.Proofs.Query.Recovering

/-!
# Opening again

A tree of queries is opened, used, rewound, closed and given other children in any order, and no
call fails, `Operator.Reached`. Then it is opened once more.

* Whatever happened before, the rows that can be drained without a failure are those that
  `Operator.opened` says. In memory they are drained indeed, to the end or the failure that it says.
* A history is careful if the tree is quiet whenever it is opened, and children are closed when they
  are put into it. Its joins by a table are steady then, `Operator.Sound`. So a tree that is quiet
  when it is opened gives the rows of a new one over the children that it has now.
* A tree that was closed is quiet and steady, whatever happened before. One that was not closed
  keeps the row that was looked at, and the rows of a join that wait. They come first when it is
  opened, and then all rows.
-/

namespace Rowstore

namespace Operator

/-- A tree, after calls that did not fail. If `careful`, it was quiet whenever it was opened, and
the children that it was given were closed. -/
inductive Reached (careful : Prop) (e : Engine) : Operator × Engine → Prop
  | built {op} (h : Built e op)
      (hcurrent : ∀ db table, op.Scans db table → (e.store db).Current table) :
      Reached careful e (op, e)
  | start {s s'} (h : Reached careful e s) (hquiet : careful → s.1.Quiet)
      (hstart : s.1.start s.2 = (.ok (), s')) : Reached careful e s'
  | call {s s' given} (h : Reached careful e s) (hcall : Call s given s') : Reached careful e s'
  | rewind {s s'} (h : Reached careful e s) (hrewind : s.1.rewind s.2 = (.ok (), s')) :
      Reached careful e s'
  | close {s} (h : Reached careful e s) : Reached careful e (s.1.close, s.2)
  | setChildren {s children} (h : Reached careful e s)
      (hchildren : ∀ child ∈ children, Reached careful e (child, s.2))
      (hclosed : careful → ∀ child ∈ children, child.cursor.isOpen = false) :
      Reached careful e (s.1.setChildren children, s.2)

variable {careful : Prop} {e e' : Engine} {op op' left right : Operator}
  {s s' t : Operator × Engine} {n : Nat}

/-! ### Other children -/

/-- A planned join is of the kind that is picked for its predicate. -/
def Picked : Operator → Prop
  | nestedLoop planned p .. => planned = true → p.op ≠ .equal
  | hashJoin planned p .. => planned = true → p.op = .equal
  | _ => True

theorem Built.picked (h : op.Built e) : op.Picked := by
  cases h with
  | rows => trivial
  | scan h =>
    obtain ⟨f, -, h⟩ := bind_eq_ok_iff.1 h
    cases h
    trivial
  | filter => trivial
  | loop => exact nofun
  | hash => exact nofun
  | join p =>
    unfold Operator.join
    split_ifs with hp
    · exact fun _ => hp
    · exact fun _ => hp
  | aggregate hchild h =>
    obtain ⟨schema, -, h⟩ := bind_eq_ok_iff.1 h
    cases h
    trivial

section Joins

variable {planned : Bool} {p : JoinPredicate}

theorem Built.nestedLoop (hp : planned = true → p.op ≠ .equal) (hl : left.Built e)
    (hr : right.Built e) :
    (nestedLoop planned p left right (left.schema.merge right.schema) none {}).Built e := by
  cases planned with
  | false => exact .loop p hl hr
  | true =>
    have hjoin := Built.join p hl hr
    unfold Operator.join at hjoin
    rwa [if_neg (hp rfl)] at hjoin

theorem Built.hashJoin (hp : planned = true → p.op = .equal) (hl : left.Built e)
    (hr : right.Built e) :
    (hashJoin planned p left right (left.schema.merge right.schema) none [] {}).Built e := by
  cases planned with
  | false => exact .hash p hl hr
  | true =>
    have hjoin := Built.join p hl hr
    unfold Operator.join at hjoin
    rwa [if_pos (hp rfl)] at hjoin

end Joins

/-- A tree of queries over tables that are there. New, it is one that can be put together, and it is
steady if it was handled with care. -/
structure Sound (careful : Prop) (e : Engine) (op : Operator) : Prop where
  readable : op.Readable e
  built : op.fresh.Built e
  steady : careful → op.Steady False e

namespace Sound

/-- A tree that goes on is sound as long as it is steady. -/
theorem congr (h : Sound careful e op) (hfresh : op'.fresh = op.fresh)
    (hsteady : careful → op'.Steady False e) : Sound careful e op' where
  readable := (readable_congr hfresh).2 h.readable
  built := hfresh ▸ h.built
  steady := hsteady

theorem follows (h : Sound careful e op) (hfollows : op.Follows False e op') :
    Sound careful e op' :=
  h.congr hfollows.fresh_eq fun hcareful => hfollows.steady (h.steady hcareful)

theorem setChildren (h : Sound careful e op) {children : List Operator}
    (hchildren : ∀ child ∈ children, Sound careful e child)
    (hclosed : careful → ∀ child ∈ children, child.cursor.isOpen = false) :
    Sound careful e (op.setChildren children) := by
  unfold Operator.setChildren
  split
  · rename_i p old c child rest
    have hchild := hchildren child List.mem_cons_self
    exact ⟨hchild.readable, .filter p hchild.built, fun hcareful =>
      ⟨False.elim, hchild.steady hcareful⟩⟩
  · rename_i planned p oldl oldr oldSchema current c left right rest
    have hl := hchildren left List.mem_cons_self
    have hr := hchildren right (List.mem_cons_of_mem _ List.mem_cons_self)
    refine ⟨⟨hl.readable, hr.readable⟩, ?_, fun hcareful =>
      ⟨False.elim, hl.steady hcareful, hr.steady hcareful⟩⟩
    rw [fresh, ← schema_fresh left, ← schema_fresh right]
    exact .nestedLoop h.built.picked hl.built hr.built
  · rename_i planned p oldl oldr oldSchema table pending c left right rest
    have hl := hchildren left List.mem_cons_self
    have hr := hchildren right (List.mem_cons_of_mem _ List.mem_cons_self)
    refine ⟨⟨hl.readable, hr.readable⟩, ?_, fun hcareful =>
      .hash_none (hl.steady hcareful) (hr.steady hcareful)
        (hclosed hcareful left List.mem_cons_self)⟩
    rw [fresh, ← schema_fresh left, ← schema_fresh right]
    exact .hashJoin h.built.picked hl.built hr.built
  · rename_i column group fn old oldSchema results c child rest
    have hchild := hchildren child List.mem_cons_self
    split
    · rename_i schema hschema
      refine ⟨hchild.readable, ?_, fun hcareful => ⟨False.elim, hchild.steady hcareful⟩⟩
      refine .aggregate hchild.built (?_ : aggregated child.fresh column group fn = _)
      rw [aggregated, schema_fresh, hschema]
      rfl
    · -- it keeps the child that it has
      exact h
  · exact h.readable.elim
  · exact h.readable.elim
  · -- there are too few children, or none is wanted
    exact h

end Sound

/-! ### Histories -/

/-- A tree is sound after any history, and its tables were only read. -/
theorem Reached.sound (h : Reached careful e s) : Sound careful e s.1 ∧ e.Reads s.2 := by
  induction h with
  | @built op h hcurrent =>
    have hreadable := h.readable hcurrent
    refine ⟨⟨hreadable, h.fresh_eq.symm ▸ h, fun _ => ?_⟩, .refl e⟩
    rw [← h.fresh_eq]
    exact hreadable.steady_fresh
  | start h hquiet hstart ih =>
    obtain ⟨hsound, he⟩ := ih
    have hstarted := started hsound.readable he
    rw [hstart] at hstarted
    obtain ⟨he', hfresh, -, hsteady⟩ := hstarted
    exact ⟨hsound.congr hfresh fun hcareful =>
      (hsteady ((hsound.steady hcareful).rested (hquiet hcareful))).mono False.elim, he'⟩
  | call h hcall ih =>
    obtain ⟨hsound, he⟩ := ih
    cases hcall with
    | look hlook =>
      obtain ⟨he', hfollows, -⟩ := met_hasNext False hsound.readable he hlook
      exact ⟨hsound.follows hfollows, he'⟩
    | take htake =>
      obtain ⟨he', hfollows, -⟩ :=
        met_of_pull False hsound.readable he (pull_of_next htake) nofun
      exact ⟨hsound.follows hfollows, he'⟩
    | ended hended =>
      obtain ⟨he', hfollows, -⟩ :=
        met_of_pull False hsound.readable he hended nofun
      exact ⟨hsound.follows hfollows, he'⟩
    | elsewhere hreads => exact ⟨hsound, he.trans hreads⟩
  | rewind h hrewind ih =>
    obtain ⟨hsound, he⟩ := ih
    have hrewound := rewound False hsound.readable he
    rw [hrewind] at hrewound
    obtain ⟨he', hfresh, -, hsteady⟩ := hrewound
    exact ⟨hsound.congr hfresh fun hcareful => hsteady (hsound.steady hcareful), he'⟩
  | close h ih =>
    obtain ⟨hsound, he⟩ := ih
    exact ⟨hsound.congr (fresh_close _) fun _ => hsound.readable.steady_close, he⟩
  | setChildren h hchildren hclosed ih ihs =>
    exact ⟨ih.1.setChildren (fun child hchild => (ihs child hchild).1) hclosed, ih.2⟩

/-! ### Opening -/

theorem children_fresh (op : Operator) : op.fresh.children = op.children.map fresh := by
  cases op <;> rfl

/-- What is drained without a failure after an opening is what the opening says. -/
theorem Drains.of_start (hop : op.Readable e) (he : e.Reads e')
    (hstart : op.start e' = (.ok (), t)) {found : List Tuple} (h : Drains t (.ofList found)) :
    .ofList found = (op.opened e).now := by
  have hstarted := started hop he
  rw [hstart] at hstarted
  obtain ⟨he', hfresh, hprospect, -⟩ := hstarted
  rw [← hprospect]
  exact h.eq_now ((readable_congr hfresh).2 hop) he' (.inr (Feed.ends_ofList found))

/-- What comes after an opening, in memory. -/
theorem drains_iff_of_start (hmemory : op.InMemory) (he : e.Reads e')
    (hstart : op.start e' = (.ok (), t)) (f : Feed) : Drains t f ↔ f = (op.opened e).now := by
  have hstarted := started (hmemory.readable e) he
  rw [hstart] at hstarted
  obtain ⟨he', hfresh, hprospect, -⟩ := hstarted
  rw [← hprospect]
  exact drains_iff ((inMemory_congr hfresh).2 hmemory) he' f

/-- All rows that come are the same, and in memory the failures too. -/
def Alike (s t : Operator × Engine) : Prop :=
  (∀ found found', Drains s (.ofList found) → Drains t (.ofList found') → found = found') ∧
    (s.1.InMemory → ∀ f, Drains s f ↔ Drains t f)

/-- A tree at rest gives what a new one gives, when it is opened. -/
theorem Rested.alike_fresh (h : op.Rested e) (hop : op.Readable e) (he : e.Reads e')
    (hstart : op.start e' = (.ok (), s))
    (hanew : op.fresh.start e' = (.ok (), t)) : Alike s t := by
  have hopened : op.opened e = op.fresh.opened e := by
    rw [opened_of_rested h, opened_fresh]
  refine ⟨fun found found' hdrain hdrain' => Feed.ofList_inj ?_, fun hmemory f => ?_⟩
  · rw [hdrain.of_start hop he hstart, hopened]
    exact (hdrain'.of_start ((readable_fresh op).2 hop) he hanew).symm
  · have hfresh : s.1.fresh = op.fresh := by
      have hsame := op.fresh_start e'
      rwa [hstart] at hsame
    have hmemory' := (inMemory_congr hfresh).1 hmemory
    rw [drains_iff_of_start hmemory' he hstart, hopened,
      drains_iff_of_start ((inMemory_fresh op).2 hmemory') he hanew]

/-- **Opening again** gives what `opened` says, in whatever state a tree is: the rows of a new one
if it is quiet or was closed. -/
theorem opened_again (h : Reached False e s) (hstart : s.1.start s.2 = (.ok (), t)) :
    (∀ found, Drains t (.ofList found) → .ofList found = (s.1.opened e).now) ∧
    (s.1.InMemory → ∀ f, Drains t f ↔ f = (s.1.opened e).now) ∧
    (∃ n o, Finished o ∧ ∀ m, n ≤ m → t.1.collect m t.2 = o) ∧
    s.1.fresh.Built e ∧ s.1.fresh.children = s.1.children.map fresh ∧
    ∀ anew, s.1.fresh.start s.2 = (.ok (), anew) →
      (Reached True e s → s.1.Quiet → Alike t anew) ∧
      ∀ t', s.1.close.start s.2 = (.ok (), t') → Alike t' anew := by
  obtain ⟨hsound, he⟩ := h.sound
  refine ⟨fun found hdrain => hdrain.of_start hsound.readable he hstart,
    fun hmemory f => drains_iff_of_start hmemory he hstart f, ?_, hsound.built,
    children_fresh s.1, fun anew hanew => ⟨fun hcareful hquiet => ?_, fun t' hstart' => ?_⟩⟩
  · have hstarted := started hsound.readable he
    rw [hstart] at hstarted
    obtain ⟨he', hfresh, -⟩ := hstarted
    obtain ⟨o, ho, -, n, hn⟩ := collected ((readable_congr hfresh).2 hsound.readable) he'
    exact ⟨n, o, ho, hn⟩
  · have hrested := (hcareful.sound.1.steady trivial).rested hquiet
    exact hrested.alike_fresh hsound.readable he hstart hanew
  · rw [← fresh_close] at hanew
    have hreadable := (readable_congr (fresh_close s.1)).2 hsound.readable
    exact hsound.readable.rested_close.alike_fresh hreadable he hstart' hanew

/-- Twice a one, with a one. -/
def onesAndOne : Operator :=
  hashed ⟨0, .equal, 0⟩ (ofRows Store.numbers [Store.number 1, Store.number 1])
    (ofRows Store.numbers [Store.number 1])

/-- Twos and threes, with a three. -/
def otherNumbers : List Operator :=
  [ofRows Store.numbers [Store.number 2, Store.number 3], ofRows Store.numbers [Store.number 3]]

/-- The join of ones is left when one of its two pairs waits, closed, and given other children. It
gives their one pair when it is opened again, as a new join of them does. -/
theorem opened_again_onesAndOne :
    let first := (onesAndOne.start (.new [])).2
    let given := first.1.next 9 first.2
    let changed := given.2.1.close.setChildren otherNumbers
    let again := (changed.start given.2.2).2
    let anew := (changed.fresh.start given.2.2).2
    given.1.toOption.isSome ∧ (changed.start given.2.2).1 = .ok () ∧
      (∃ pair, pair.values = [some (.int 3), some (.int 3)] ∧ Drains again (.ofList [pair])) ∧
      ∀ f, Drains again f ↔ Drains anew f := by
  intro first given changed again anew
  have hgiven : given.1.toOption.isSome := by decide +kernel
  have hsame : given.2.2 = .new [] := by decide +kernel
  have hreached : ∀ careful, Reached careful (.new []) (changed, given.2.2) := by
    intro careful
    obtain ⟨row, hrow⟩ := exists_eq_ok hgiven
    have hbuilt : Reached careful (.new []) (onesAndOne, .new []) :=
      .built (.hash _ (.rows _ _) (.rows _ _)) fun _ _ h => (h.elim id id).elim
    have hfirst : Reached careful (.new []) first :=
      hbuilt.start (fun _ => ⟨rfl, rfl, rfl, rfl⟩) (rfl : onesAndOne.start _ = _)
    have htaken : Reached careful (.new []) given.2 :=
      hfirst.call (.take (n := 9) (Prod.ext hrow rfl))
    refine htaken.close.setChildren ?_ fun _ => by decide
    rw [hsame]
    rintro child hchild
    obtain rfl | rfl : child = _ ∨ child = _ := by simpa [otherNumbers] using hchild
    · exact .built (.rows _ _) nofun
    · exact .built (.rows _ _) nofun
  have hstart : changed.start given.2.2 = (.ok (), again) := rfl
  obtain ⟨-, -, -, -, -, hopened⟩ := opened_again (hreached False) hstart
  have halike : Alike again anew := (hopened anew rfl).1 (hreached True) ⟨rfl, rfl, rfl, rfl⟩
  let found := again.1.next 9 again.2
  let ended := found.2.1.next 9 found.2.2
  have hfound : found.1 = .ok ((Store.number 3).concat (Store.number 3)) := by decide +kernel
  have hended : ended.1 = .error .noSuchElement := by decide +kernel
  exact ⟨hgiven, rfl, ⟨_, rfl, .take (n := 9) (Prod.ext hfound rfl)
    (.refused (n := 9) (Prod.ext hended rfl))⟩, halike.2 ⟨trivial, trivial⟩⟩

/-- Two numbers. -/
def twoNumbers : Operator := ofRows Store.numbers [Store.number 1, Store.number 2]

/-- The numbers are opened, and the first is looked at. Opened again, they give it twice. -/
theorem row_twice_after_opening :
    ∃ first looked again, twoNumbers.Built (.new []) ∧
      twoNumbers.start (.new []) = (.ok (), first) ∧
      first.1.hasNext 9 first.2 = (.ok true, looked) ∧
      looked.1.start looked.2 = (.ok (), again) ∧
      Drains again (.ofList [Store.number 1, Store.number 1, Store.number 2]) ∧
      ¬ Drains again (.ofList [Store.number 1, Store.number 2]) ∧
      Drains (looked.1.fresh.start looked.2).2 (.ofList [Store.number 1, Store.number 2]) := by
  let first := (twoNumbers.start (.new [])).2
  let looked := (first.1.hasNext 9 first.2).2
  let again := (looked.1.start looked.2).2
  have hagain : Drains again (.ofList [Store.number 1, Store.number 1, Store.number 2]) :=
    .take (n := 9) rfl (.take (n := 9) rfl (.take (n := 9) rfl (.refused (n := 9) rfl)))
  refine ⟨first, looked, again, .rows _ _, rfl, rfl, rfl, hagain, fun hwrong => ?_,
    .take (n := 9) rfl (.take (n := 9) rfl (.refused (n := 9) rfl))⟩
  have hreads : (Engine.new []).Reads again.2 := .refl _
  have hmemory : again.1.InMemory := trivial
  rw [drains_iff hmemory hreads] at hwrong hagain
  cases hwrong.trans hagain.symm

end Operator

end Rowstore
