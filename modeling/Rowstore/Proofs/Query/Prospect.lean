import Mathlib
import Rowstore.Proofs.Query.Feed
import Rowstore.Proofs.Query.Moving

/-!
# Opening and rewinding in any state

What comes from an operator after it was opened or sent back, whatever it has been through: calls
that failed half-way, rows that were looked at and not taken, tables that were made or not.

* Sent back, an operator is where its prospect says, `Operator.Rewound`; opened, it is where
  `Operator.opened` says, `Operator.Started`.
* Nothing of the past is left in an operator that is at rest, `Operator.Rested`: there are no rows
  in it that were looked at or wait, and the tables that its joins have are those that they should
  have. What comes when it is opened is its course then, `Operator.opened_of_rested`. It is at rest
  if it is `Operator.Quiet` and `Operator.Steady`.
-/

namespace Rowstore

namespace Operator

variable {e e' : Engine} {op op' child left right : Operator} {allOpen : Prop}

/-! ### Trees -/

/-- All rows are in memory. -/
def InMemory : Operator → Prop
  | rows .. => True
  | scan .. => False
  | filter _ child _ | aggregate _ _ _ child _ _ _ => child.InMemory
  | nestedLoop _ _ left right _ _ _ | hashJoin _ _ left right _ _ _ _ =>
    left.InMemory ∧ right.InMemory
  | insert .. | delete .. => False

/-- A tree only reads, from tables that are there and current. -/
def Readable (e : Engine) : Operator → Prop
  | rows .. => True
  | scan db table _ _ place _ =>
    (e.store db).catalog.file table = .ok place.file ∧ (e.store db).Current table
  | filter _ child _ | aggregate _ _ _ child _ _ _ => child.Readable e
  | nestedLoop _ _ left right _ _ _ | hashJoin _ _ left right _ _ _ _ =>
    left.Readable e ∧ right.Readable e
  | insert .. | delete .. => False

theorem InMemory.readable (h : op.InMemory) (e : Engine) : op.Readable e := by
  induction op with
  | rows => trivial
  | filter p child c ih => exact ih h
  | nestedLoop planned p left right schema current c ihl ihr => exact ⟨ihl h.1, ihr h.2⟩
  | hashJoin planned p left right schema table pending c ihl ihr => exact ⟨ihl h.1, ihr h.2⟩
  | aggregate column group fn child schema results c ih => exact ih h
  | scan => exact h.elim
  | insert => exact h.elim
  | delete => exact h.elim

/-- A tree that was put together from queries only reads. -/
theorem Built.readable (h : op.Built e)
    (hcurrent : ∀ db table, op.Scans db table → (e.store db).Current table) : op.Readable e := by
  induction h with
  | rows schema all => trivial
  | @scan db tx table label op hop =>
    obtain ⟨f, hf, hop⟩ := bind_eq_ok_iff.1 hop
    cases hop
    exact ⟨hf, hcurrent db table ⟨rfl, rfl⟩⟩
  | filter p hchild ih => exact ih hcurrent
  | loop p hl hr ihl ihr =>
    exact ⟨ihl fun db table h => hcurrent db table (.inl h),
      ihr fun db table h => hcurrent db table (.inr h)⟩
  | hash p hl hr ihl ihr =>
    exact ⟨ihl fun db table h => hcurrent db table (.inl h),
      ihr fun db table h => hcurrent db table (.inr h)⟩
  | join p hl hr ihl ihr =>
    unfold Operator.join at hcurrent ⊢
    split_ifs at hcurrent ⊢ <;>
      exact ⟨ihl fun db table h => hcurrent db table (.inl h),
        ihr fun db table h => hcurrent db table (.inr h)⟩
  | aggregate hchild hop ih =>
    obtain ⟨schema, -, hop⟩ := bind_eq_ok_iff.1 hop
    cases hop
    exact ih hcurrent

theorem inMemory_fresh (op : Operator) : op.fresh.InMemory ↔ op.InMemory := by
  induction op with
  | filter p child c ih => exact ih
  | nestedLoop planned p left right schema current c ihl ihr => exact and_congr ihl ihr
  | hashJoin planned p left right schema table pending c ihl ihr => exact and_congr ihl ihr
  | aggregate column group fn child schema results c ih => exact ih
  | _ => rfl

theorem readable_fresh (op : Operator) : op.fresh.Readable e ↔ op.Readable e := by
  induction op with
  | filter p child c ih => exact ih
  | nestedLoop planned p left right schema current c ihl ihr => exact and_congr ihl ihr
  | hashJoin planned p left right schema table pending c ihl ihr => exact and_congr ihl ihr
  | aggregate column group fn child schema results c ih => exact ih
  | _ => rfl

theorem inMemory_congr (h : op'.fresh = op.fresh) : op'.InMemory ↔ op.InMemory := by
  rw [← inMemory_fresh op', h, inMemory_fresh]

theorem readable_congr (h : op'.fresh = op.fresh) : op'.Readable e ↔ op.Readable e := by
  rw [← readable_fresh op', h, readable_fresh]

/-! ### Tables that joins have -/

/-- The joins by a table have that of all their left rows, or have taken none of them. If `allOpen`,
all operators of the tree are open. -/
def Steady (allOpen : Prop) (e : Engine) : Operator → Prop
  | rows _ _ _ c | scan _ _ _ _ _ c => allOpen → c.isOpen = true
  | filter _ child c | aggregate _ _ _ child _ _ c =>
    (allOpen → c.isOpen = true) ∧ child.Steady allOpen e
  | nestedLoop _ _ left right _ _ c =>
    (allOpen → c.isOpen = true) ∧ left.Steady allOpen e ∧ right.Steady allOpen e
  | hashJoin _ p left right _ table _ c =>
    (allOpen → c.isOpen = true) ∧ left.Steady allOpen e ∧ right.Steady allOpen e ∧
      match table with
      | some table => (left.course e).foldM (addKeyed p.left) [] = .ok table
      | none => left.cursor.isOpen = true → (left.prospect e).now = left.course e
  | insert .. | delete .. => False

theorem Steady.isOpen {allOpen : Prop} (h : op.Steady allOpen e) (hopen : allOpen) :
    op.cursor.isOpen = true := by
  cases op with
  | rows | scan => exact h hopen
  | filter | aggregate | nestedLoop | hashJoin => exact h.1 hopen
  | insert | delete => exact h.elim

theorem Steady.mono {P Q : Prop} (h : op.Steady P e) (hPQ : Q → P) : op.Steady Q e := by
  induction op with
  | rows schema all rest c => exact fun hQ => h (hPQ hQ)
  | scan db table label schema place c => exact fun hQ => h (hPQ hQ)
  | filter p child c ih => exact ⟨fun hQ => h.1 (hPQ hQ), ih h.2⟩
  | nestedLoop planned p left right schema current c ihl ihr =>
    exact ⟨fun hQ => h.1 (hPQ hQ), ihl h.2.1, ihr h.2.2⟩
  | hashJoin planned p left right schema table pending c ihl ihr =>
    exact ⟨fun hQ => h.1 (hPQ hQ), ihl h.2.1, ihr h.2.2.1, h.2.2.2⟩
  | aggregate column group fn child schema results c ih => exact ⟨fun hQ => h.1 (hPQ hQ), ih h.2⟩
  | insert => exact h.elim
  | delete => exact h.elim

/-- No row of the tree was looked at, and none waits. -/
def Quiet : Operator → Prop
  | rows _ _ _ c | scan _ _ _ _ _ c => c.peeked = none
  | filter _ child c | aggregate _ _ _ child _ _ c => c.peeked = none ∧ child.Quiet
  | nestedLoop _ _ left right _ _ c => c.peeked = none ∧ left.Quiet ∧ right.Quiet
  | hashJoin _ _ left right _ _ pending c =>
    c.peeked = none ∧ pending = [] ∧ left.Quiet ∧ right.Quiet
  | insert _ _ _ _ child _ c | delete _ _ child _ c => c.peeked = none ∧ child.Quiet

/-- No row of the tree was looked at, none waits, and the tables that its joins have are those of
all their left rows. -/
def Rested (e : Engine) : Operator → Prop
  | rows _ _ _ c | scan _ _ _ _ _ c => c.peeked = none
  | filter _ child c | aggregate _ _ _ child _ _ c => c.peeked = none ∧ child.Rested e
  | nestedLoop _ _ left right _ _ c => c.peeked = none ∧ left.Rested e ∧ right.Rested e
  | hashJoin _ p left right _ table pending c =>
    c.peeked = none ∧ pending = [] ∧ left.Rested e ∧ right.Rested e ∧
      ∀ entries, table = some entries → (left.course e).foldM (addKeyed p.left) [] = .ok entries
  | insert .. | delete .. => False

theorem Steady.rested (h : op.Steady allOpen e) (hquiet : op.Quiet) : op.Rested e := by
  induction op with
  | rows => exact hquiet
  | scan => exact hquiet
  | filter p child c ih => exact ⟨hquiet.1, ih h.2 hquiet.2⟩
  | nestedLoop planned p left right schema current c ihl ihr =>
    exact ⟨hquiet.1, ihl h.2.1 hquiet.2.1, ihr h.2.2 hquiet.2.2⟩
  | hashJoin planned p left right schema table pending c ihl ihr =>
    obtain ⟨-, hl, hr, htable⟩ := h
    obtain ⟨hc, hpending, hquietl, hquietr⟩ := hquiet
    refine ⟨hc, hpending, ihl hl hquietl, ihr hr hquietr, ?_⟩
    rintro entries rfl
    exact htable
  | aggregate column group fn child schema results c ih => exact ⟨hquiet.1, ih h.2 hquiet.2⟩
  | insert => exact h.elim
  | delete => exact h.elim

/-- A new operator is steady: its joins have no tables, and nothing was opened. -/
theorem Readable.steady_fresh (h : op.Readable e) : op.fresh.Steady False e := by
  induction op with
  | rows => exact False.elim
  | scan => exact False.elim
  | filter p child c ih => exact ⟨False.elim, ih h⟩
  | nestedLoop planned p left right schema current c ihl ihr =>
    exact ⟨False.elim, ihl h.1, ihr h.2⟩
  | hashJoin planned p left right schema table pending c ihl ihr =>
    refine ⟨False.elim, ihl h.1, ihr h.2, fun hopen => ?_⟩
    rw [cursor_fresh] at hopen
    cases hopen
  | aggregate column group fn child schema results c ih => exact ⟨False.elim, ih h⟩
  | insert => exact h.elim
  | delete => exact h.elim

theorem quiet_fresh (op : Operator) : op.fresh.Quiet := by
  induction op with
  | rows => rfl
  | scan => rfl
  | filter p child c ih => exact ⟨rfl, ih⟩
  | nestedLoop planned p left right schema current c ihl ihr => exact ⟨rfl, ihl, ihr⟩
  | hashJoin planned p left right schema table pending c ihl ihr => exact ⟨rfl, rfl, ihl, ihr⟩
  | aggregate column group fn child schema results c ih => exact ⟨rfl, ih⟩
  | insert db tx table tableSchema child done c ih => exact ⟨rfl, ih⟩
  | delete db tx child done c ih => exact ⟨rfl, ih⟩

theorem Readable.rested_fresh (h : op.Readable e) : op.fresh.Rested e :=
  h.steady_fresh.rested (quiet_fresh op)

/-- A tree that was put together is new. -/
theorem Built.fresh_eq (h : op.Built e) : op.fresh = op := by
  induction h with
  | rows => rfl
  | scan h =>
    obtain ⟨f, -, h⟩ := bind_eq_ok_iff.1 h
    cases h
    rfl
  | filter p hchild ih => exact congrArg (filtered p) ih
  | loop p hl hr ihl ihr =>
    exact congrArg₂ (nestedLoop false p · · _ none {}) ihl ihr
  | hash p hl hr ihl ihr =>
    exact congrArg₂ (hashJoin false p · · _ none [] {}) ihl ihr
  | join p hl hr ihl ihr =>
    unfold Operator.join
    split
    · exact congrArg₂ (hashJoin true p · · _ none [] {}) ihl ihr
    · exact congrArg₂ (nestedLoop true p · · _ none {}) ihl ihr
  | aggregate hchild hop ih =>
    obtain ⟨schema, -, hop⟩ := bind_eq_ok_iff.1 hop
    cases hop
    exact congrArg (Operator.aggregate _ _ _ · schema none {}) ih

/-- What comes when an operator at rest is opened is what comes from a new one. -/
theorem opened_of_rested (h : op.Rested e) : op.opened e = ⟨op.course e, op.course e⟩ := by
  induction op with
  | rows schema all rest c =>
    rw [opened, setOpen_eq_ready h]
    rfl
  | scan db table label schema place c =>
    rw [opened, setOpen_eq_ready h]
    rfl
  | filter p child c ih =>
    rw [opened, setOpen_eq_ready h.1, ih h.2]
    rfl
  | nestedLoop planned p left right schema current c ihl ihr =>
    rw [opened, setOpen_eq_ready h.1, ihl h.2.1, ihr h.2.2]
    rfl
  | hashJoin planned p left right schema table pending c ihl ihr =>
    obtain ⟨hc, rfl, hl, hr, htable⟩ := h
    rw [opened, setOpen_eq_ready hc, ihl hl, ihr hr, course]
    cases table with
    | none => rfl
    | some table =>
      rw [htable table rfl]
      rfl
  | aggregate column group fn child schema results c ih =>
    rw [opened, setOpen_eq_ready h.1, ih h.2]
    rfl
  | insert => exact h.elim
  | delete => exact h.elim

/-- What comes from behind a cursor that is open and has no row. -/
theorem behind_clear {c : Cursor} (h : c.isOpen = true) (f : Feed) : f.behind c.clear = f := by
  unfold Feed.behind Cursor.clear
  rw [if_neg (not_not.2 h)]

/-- Sent back, a steady operator gives what comes from a new one, if it is open throughout. -/
theorem Steady.again_eq (h : op.Steady True e) : (op.prospect e).again = op.course e := by
  induction op with
  | rows schema all rest c => exact behind_clear (h trivial) _
  | scan db table label schema place c => exact behind_clear (h trivial) _
  | filter p child c ih =>
    rw [course, ← ih h.2]
    exact behind_clear (h.1 trivial) _
  | nestedLoop planned p left right schema current c ihl ihr =>
    rw [course, ← ihl h.2.1, ← ihr h.2.2]
    exact behind_clear (h.1 trivial) _
  | hashJoin planned p left right schema table pending c ihl ihr =>
    obtain ⟨hc, hl, hr, htable⟩ := h
    have hentries : Prospect.entries p table (left.prospect e).now =
        (left.course e).foldM (addKeyed p.left) [] := by
      cases table with
      | none => rw [← htable (hl.isOpen trivial), Prospect.entries]
      | some table => rw [htable, Prospect.entries]
    rw [course, ← ihr hr, ← hentries]
    exact behind_clear (hc trivial) _
  | aggregate column group fn child schema results c ih =>
    rw [course, ← ih h.2]
    exact behind_clear (h.1 trivial) _
  | insert => exact h.elim
  | delete => exact h.elim

/-! ### Closing -/

/-- Nothing waits in a tree that was closed. -/
theorem quiet_close (op : Operator) : op.close.Quiet := by
  induction op with
  | rows => rfl
  | scan => rfl
  | filter p child c ih => exact ⟨rfl, ih⟩
  | nestedLoop planned p left right schema current c ihl ihr => exact ⟨rfl, ihl, ihr⟩
  | hashJoin planned p left right schema table pending c ihl ihr => exact ⟨rfl, rfl, ihl, ihr⟩
  | aggregate column group fn child schema results c ih => exact ⟨rfl, ih⟩
  | insert db tx table tableSchema child done c ih => exact ⟨rfl, ih⟩
  | delete db tx child done c ih => exact ⟨rfl, ih⟩

/-- A closed left child has not been asked for rows. -/
theorem Steady.hash_none {planned : Bool} {p : JoinPredicate} {schema : Schema}
    {pending : List Tuple} {c : Cursor} (hl : left.Steady False e) (hr : right.Steady False e)
    (hclosed : left.cursor.isOpen = false) :
    (hashJoin planned p left right schema none pending c).Steady False e :=
  ⟨False.elim, hl, hr, fun hopen => Bool.noConfusion (hclosed.symm.trans hopen)⟩

theorem Readable.steady_close (h : op.Readable e) : op.close.Steady False e := by
  induction op with
  | rows => exact False.elim
  | scan => exact False.elim
  | filter p child c ih => exact ⟨False.elim, ih h⟩
  | nestedLoop planned p left right schema current c ihl ihr =>
    exact ⟨False.elim, ihl h.1, ihr h.2⟩
  | hashJoin planned p left right schema table pending c ihl ihr =>
    refine .hash_none (ihl h.1) (ihr h.2) ?_
    rw [cursor_close]
    rfl
  | aggregate column group fn child schema results c ih => exact ⟨False.elim, ih h⟩
  | insert => exact h.elim
  | delete => exact h.elim

theorem Readable.rested_close (h : op.Readable e) : op.close.Rested e :=
  h.steady_close.rested (quiet_close op)

/-! ### Trees at rest -/

/-- A tree has nothing in it of what was done with it: it is new, was closed, or was only opened and
sent back since. -/
structure AtRest (e : Engine) (child op : Operator) : Prop where
  fresh_eq : op.fresh = child.fresh
  rested : op.Rested e

namespace AtRest

theorem trans {op' : Operator} (h : AtRest e child op) (h' : AtRest e op op') :
    AtRest e child op' :=
  ⟨h'.fresh_eq.trans h.fresh_eq, h'.rested⟩

theorem close (hchild : child.Readable e) (hfresh : op.fresh = child.fresh) :
    AtRest e child op.close where
  fresh_eq := (fresh_close op).trans hfresh
  rested := ((readable_congr hfresh).2 hchild).rested_close

/-- Whatever a call of a child came to, an operator goes on with the child at rest. -/
theorem andThen {o : Pulled Unit} {keep : Operator × Engine → Operator × Engine}
    {next : Unit → Operator × Engine → Pulled Unit} (h : AtRest e child o.2.1)
    (hkeep : ∀ s : Operator × Engine, AtRest e child s.1 → AtRest e op (keep s).1)
    (hnext : ∀ u s, AtRest e child s.1 → AtRest e op (next u s).2.1) :
    AtRest e op (o.andThen keep next).2.1 := by
  obtain ⟨cause | u, s⟩ := o
  · exact hkeep s h
  · exact hnext u s h

end AtRest

/-- An opening takes no rows, and makes no tables. -/
theorem Rested.start (h : op.Rested e) (e' : Engine) : AtRest e op (op.start e').2.1 := by
  induction op generalizing e' with
  | rows => exact ⟨rfl, h⟩
  | scan db table label schema place c =>
    have hplace := place.fresh_start (e'.store db)
    unfold Operator.start
    generalize place.start (e'.store db) = o at hplace ⊢
    obtain ⟨cause | u, place', s⟩ := o
    · exact ⟨fresh_scan_congr hplace, h⟩
    · exact ⟨fresh_scan_congr hplace, h⟩
  | filter p child c ih =>
    refine (ih h.2 e').andThen (fun s hs => ?_) fun _ s hs => ?_ <;>
      exact ⟨congrArg (filter p · {}) hs.fresh_eq, h.1, hs.rested⟩
  | nestedLoop planned p left right schema current c ihl ihr =>
    refine (ihl h.2.1 e').andThen (fun s hl => ?_) fun _ s hl => ?_
    · exact ⟨congrArg (nestedLoop planned p · right.fresh schema none {}) hl.fresh_eq, h.1,
        hl.rested, h.2.2⟩
    · refine (ihr h.2.2 s.2).andThen (fun s hr => ?_) fun _ s hr => ?_ <;>
        exact ⟨congrArg₂ (nestedLoop planned p · · schema none {}) hl.fresh_eq hr.fresh_eq, h.1,
          hl.rested, hr.rested⟩
  | hashJoin planned p left right schema table pending c ihl ihr =>
    obtain ⟨hc, hpending, hrestedl, hrestedr, htable⟩ := h
    refine (ihl hrestedl e').andThen (fun s hl => ?_) fun _ s hl => ?_
    · exact ⟨congrArg (hashJoin planned p · right.fresh schema none [] {}) hl.fresh_eq, hc,
        hpending, hl.rested, hrestedr, course_congr hl.fresh_eq ▸ htable⟩
    · refine (ihr hrestedr s.2).andThen (fun s hr => ?_) fun _ s hr => ?_ <;>
        exact ⟨congrArg₂ (hashJoin planned p · · schema none [] {}) hl.fresh_eq hr.fresh_eq, hc,
          hpending, hl.rested, hr.rested, course_congr hl.fresh_eq ▸ htable⟩
  | aggregate column group fn child schema results c ih =>
    refine (ih h.2 e').andThen (fun s hs => ?_) fun _ s hs => ?_ <;>
      exact ⟨congrArg (aggregate column group fn · schema none {}) hs.fresh_eq, h.1, hs.rested⟩
  | insert => exact h.elim
  | delete => exact h.elim

/-- Going back takes no rows either. -/
theorem Rested.rewind (h : op.Rested e) (e' : Engine) : AtRest e op (op.rewind e').2.1 := by
  induction op generalizing e' with
  | rows => exact ⟨rfl, rfl⟩
  | scan db table label schema place c =>
    have hplace := place.close.fresh_start (e'.store db)
    unfold Operator.rewind Scan.rewind
    generalize place.close.start (e'.store db) = o at hplace ⊢
    obtain ⟨cause | u, place', s⟩ := o
    · exact ⟨fresh_scan_congr hplace, h⟩
    · exact ⟨fresh_scan_congr hplace, rfl⟩
  | filter p child c ih =>
    refine (ih h.2 e').andThen (fun s hs => ?_) fun _ s hs => ?_
    · exact ⟨congrArg (filter p · {}) hs.fresh_eq, h.1, hs.rested⟩
    · exact ⟨congrArg (filter p · {}) hs.fresh_eq, rfl, hs.rested⟩
  | nestedLoop planned p left right schema current c ihl ihr =>
    refine (ihl h.2.1 e').andThen (fun s hl => ?_) fun _ s hl => ?_
    · exact ⟨congrArg (nestedLoop planned p · right.fresh schema none {}) hl.fresh_eq, h.1,
        hl.rested, h.2.2⟩
    · refine (ihr h.2.2 s.2).andThen (fun s hr => ?_) fun _ s hr => ?_
      · exact ⟨congrArg₂ (nestedLoop planned p · · schema none {}) hl.fresh_eq hr.fresh_eq, h.1,
          hl.rested, hr.rested⟩
      · exact ⟨congrArg₂ (nestedLoop planned p · · schema none {}) hl.fresh_eq hr.fresh_eq, rfl,
          hl.rested, hr.rested⟩
  | hashJoin planned p left right schema table pending c ihl ihr =>
    obtain ⟨hc, hpending, hrestedl, hrestedr, htable⟩ := h
    refine (ihr hrestedr e').andThen (fun s hr => ?_) fun _ s hr => ?_
    · exact ⟨congrArg (hashJoin planned p left.fresh · schema none [] {}) hr.fresh_eq, hc,
        hpending, hrestedl, hr.rested, htable⟩
    · exact ⟨congrArg (hashJoin planned p left.fresh · schema none [] {}) hr.fresh_eq, rfl, rfl,
        hrestedl, hr.rested, htable⟩
  | aggregate column group fn child schema results c ih =>
    refine (ih h.2 e').andThen (fun s hs => ?_) fun _ s hs => ?_
    · exact ⟨congrArg (aggregate column group fn · schema none {}) hs.fresh_eq, h.1, hs.rested⟩
    · exact ⟨congrArg (aggregate column group fn · schema none {}) hs.fresh_eq, rfl, hs.rested⟩
  | insert => exact h.elim
  | delete => exact h.elim

/-! ### Rewinding -/

/-- What a rewinding comes to. -/
def Rewound (allOpen : Prop) (e : Engine) (op : Operator) : Pulled Unit → Prop
  | (.error _, _, e') => e.Reads e' ∧ ¬ op.InMemory
  | (.ok (), op', e') => e.Reads e' ∧ op'.fresh = op.fresh ∧
      op'.prospect e = ⟨(op.prospect e).again, (op.prospect e).again⟩ ∧
      (op.Steady allOpen e → op'.Steady allOpen e)

/-- An operator is sent back with a child, and goes on from there. -/
theorem Rewound.andThen {o : Pulled Unit} {parent : Operator → Operator}
    {next : Unit → Operator × Engine → Pulled Unit} (h : child.Rewound allOpen e o)
    (hmemory : op.InMemory → child.InMemory)
    (hnext : ∀ child' e', e.Reads e' → child'.fresh = child.fresh →
      child'.prospect e = ⟨(child.prospect e).again, (child.prospect e).again⟩ →
      (child.Steady allOpen e → child'.Steady allOpen e) →
      op.Rewound allOpen e (next () (child', e'))) :
    op.Rewound allOpen e (o.andThen (under parent) next) := by
  obtain ⟨cause | u, child', e'⟩ := o
  · exact ⟨h.1, fun hop => h.2 (hmemory hop)⟩
  · obtain ⟨he', hfresh, hprospect, hsteady⟩ := h
    exact hnext child' e' he' hfresh hprospect hsteady

/-- Sent back, every operator is at the start of what its prospect says. In memory it is sent back
indeed. -/
theorem rewound (allOpen : Prop) (hop : op.Readable e) (he : e.Reads e') :
    op.Rewound allOpen e (op.rewind e') := by
  induction op generalizing e' with
  | rows schema all rest c => exact ⟨he, rfl, rfl, id⟩
  | scan db table label schema place c =>
    obtain ⟨hfile, hcurrent⟩ := hop
    obtain rfl := Catalog.table_of_file hfile
    unfold rewind Scan.rewind
    have hacquires := place.close.acquires_start (e'.store db)
    generalize hstart : place.close.start (e'.store db) = o at hacquires
    obtain ⟨cause | u, place', s⟩ := o
    · exact ⟨he.setStore (Engine.lt_of_file hfile) ((he.store db).trans hacquires.reads), id⟩
    · have hclosed : (e.store db).Current place.close.file.table := hcurrent
      obtain ⟨hreads, hfresh, hopen, hrows⟩ := (he.store db).start hclosed hfile hstart
      refine ⟨he.setStore (Engine.lt_of_file hfile) hreads, ?_, ?_, id⟩
      · exact fresh_scan_congr hfresh
      · obtain ⟨rows, hrest⟩ := Option.isSome_iff_exists.1 hopen
        have hfeed : scanFeed e db schema place' = tableFeed e db place.file.table schema := by
          simp only [scanFeed, hrest, tableFeed, hrows]
          rfl
        rw [prospect, hfeed]
        rfl
  | filter p child c ih =>
    refine (ih hop he).andThen id fun child' e'' he' hfresh hprospect hsteady => ?_
    refine ⟨he', congrArg (filter p · {}) hfresh, ?_, fun h => ⟨h.1, hsteady h.2⟩⟩
    rw [prospect, hprospect]
    rfl
  | nestedLoop planned p left right schema current c ihl ihr =>
    refine (ihl hop.1 he).andThen And.left fun l e₂ he₂ hl hlp hls => ?_
    refine (ihr hop.2 he₂).andThen And.right fun r e₃ he₃ hr hrp hrs => ?_
    refine ⟨he₃, congrArg₂ (nestedLoop planned p · · schema none {}) hl hr, ?_,
      fun h => ⟨h.1, hls h.2.1, hrs h.2.2⟩⟩
    rw [prospect, hlp, hrp]
    rfl
  | hashJoin planned p left right schema table pending c ihl ihr =>
    refine (ihr hop.2 he).andThen And.right fun r e₂ he₂ hr hrp hrs => ?_
    refine ⟨he₂, congrArg (hashJoin planned p left.fresh · schema none [] {}) hr, ?_,
      fun h => ⟨h.1, h.2.1, hrs h.2.2.1, h.2.2.2⟩⟩
    rw [prospect, hrp]
    rfl
  | aggregate column group fn child schema results c ih =>
    refine (ih hop he).andThen id fun child' e'' he' hfresh hprospect hsteady => ?_
    refine ⟨he', congrArg (aggregate column group fn · schema none {}) hfresh, ?_,
      fun h => ⟨h.1, hsteady h.2⟩⟩
    rw [prospect, hprospect, ← schema_fresh child', hfresh, schema_fresh]
    rfl
  | insert => exact hop.elim
  | delete => exact hop.elim

/-! ### Opening -/

/-- What an opening comes to. -/
def Started (e : Engine) (op : Operator) : Pulled Unit → Prop
  | (.error _, _) => ¬ op.InMemory
  | (.ok (), op', e') => e.Reads e' ∧ op'.fresh = op.fresh ∧ op'.prospect e = op.opened e ∧
      (op.Rested e → op'.Steady True e)

/-- An operator is opened with a child, and goes on from there. -/
theorem Started.andThen {o : Pulled Unit} {keep : Operator × Engine → Operator × Engine}
    {next : Unit → Operator × Engine → Pulled Unit} (h : child.Started e o)
    (hmemory : op.InMemory → child.InMemory)
    (hnext : ∀ child' e', e.Reads e' → child'.fresh = child.fresh →
      child'.prospect e = child.opened e →
      (child.Rested e → child'.Steady True e) →
      op.Started e (next () (child', e'))) : op.Started e (o.andThen keep next) := by
  obtain ⟨cause | u, child', e'⟩ := o
  · exact fun hop => h (hmemory hop)
  · obtain ⟨he', hfresh, hprospect, hsteady⟩ := h
    exact hnext child' e' he' hfresh hprospect hsteady

/-- Opened in any state, an operator gives what `opened` says. In memory it is opened indeed. -/
theorem started (hop : op.Readable e) (he : e.Reads e') : op.Started e (op.start e') := by
  induction op generalizing e' with
  | rows schema all rest c => exact ⟨he, rfl, rfl, fun _ _ => rfl⟩
  | scan db table label schema place c =>
    obtain ⟨hfile, hcurrent⟩ := hop
    obtain rfl := Catalog.table_of_file hfile
    unfold start
    generalize hstart : place.start (e'.store db) = o
    obtain ⟨cause | u, place', s⟩ := o
    · exact id
    · obtain ⟨hreads, hfresh, hopen, hrows⟩ := (he.store db).start hcurrent hfile hstart
      obtain ⟨rows, hrest⟩ := Option.isSome_iff_exists.1 hopen
      have hfeed : scanFeed e db schema place' = tableFeed e db place.file.table schema := by
        simp only [scanFeed, hrest, tableFeed, hrows]
      refine ⟨he.setStore (Engine.lt_of_file hfile) hreads, fresh_scan_congr hfresh, ?_,
        fun _ _ => rfl⟩
      rw [prospect, hfeed]
      rfl
  | filter p child c ih =>
    refine (ih hop he).andThen id fun child' e'' he' hfresh hprospect hsteady => ?_
    refine ⟨he', congrArg (filter p · {}) hfresh, ?_, fun h => ⟨fun _ => rfl, hsteady h.2⟩⟩
    rw [prospect, hprospect]
    rfl
  | nestedLoop planned p left right schema current c ihl ihr =>
    refine (ihl hop.1 he).andThen And.left fun l e₂ he₂ hl hlp hls => ?_
    refine (ihr hop.2 he₂).andThen And.right fun r e₃ he₃ hr hrp hrs => ?_
    refine ⟨he₃, congrArg₂ (nestedLoop planned p · · schema none {}) hl hr, ?_, fun h =>
      ⟨fun _ => rfl, hls h.2.1, hrs h.2.2⟩⟩
    rw [prospect, hlp, hrp]
    rfl
  | hashJoin planned p left right schema table pending c ihl ihr =>
    refine (ihl hop.1 he).andThen And.left fun l e₂ he₂ hl hlp hls => ?_
    refine (ihr hop.2 he₂).andThen And.right fun r e₃ he₃ hr hrp hrs => ?_
    refine ⟨he₃, congrArg₂ (hashJoin planned p · · schema none [] {}) hl hr, ?_, ?_⟩
    · rw [prospect, hlp, hrp]
      rfl
    · rintro ⟨-, -, hrestedl, hrestedr, htable⟩
      refine ⟨fun _ => rfl, hls hrestedl, hrs hrestedr, ?_⟩
      rw [course_congr hl]
      cases table with
      | none =>
        rw [hlp, opened_of_rested hrestedl]
        exact fun _ => rfl
      | some table => exact htable table rfl
  | aggregate column group fn child schema results c ih =>
    refine (ih hop he).andThen id fun child' e'' he' hfresh hprospect hsteady => ?_
    refine ⟨he', congrArg (aggregate column group fn · schema none {}) hfresh, ?_, fun h =>
      ⟨fun _ => rfl, hsteady h.2⟩⟩
    rw [prospect, hprospect, ← schema_fresh child', hfresh, schema_fresh]
    rfl
  | insert => exact hop.elim
  | delete => exact hop.elim

end Operator

end Rowstore
