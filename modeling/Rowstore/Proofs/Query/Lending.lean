import Mathlib
import Rowstore.Proofs.Query.Prospect
import Rowstore.Proofs.Run.Easing
import Rowstore.Proofs.Store.Typing

/-!
# Trees that borrow pages

Whatever state it is in and whether its calls fail or not, a tree that only reads does no more to
the databases than acquire pages, for the transactions of its scans: `Operator.fetch_lent`,
`Operator.rewind_lent` and `Operator.borrows_start`. So what is known of stores whose pages are
acquired is known of them when somebody reads: `Store.Borrows.stays`, `Store.Lighter.borrowed`.

None of its operators is opened or closed by a pull or by a rewinding, and none is closed by an
opening, `Operator.allOpen_start`. So a tree that was opened is open throughout until it is closed,
even after calls that failed.
-/

namespace Rowstore

/-! ### Stores and databases -/

namespace Store

variable {s t u : Store} {tx : TxId}

/-- Pages are acquired for some transactions, one after another. -/
def Borrows : Store → Store → Prop :=
  Relation.ReflTransGen fun s t => ∃ tx id page, s.acquire tx id = .ok (page, t)

namespace Borrows

theorem refl (s : Store) : s.Borrows s := Relation.ReflTransGen.refl

theorem trans (h : s.Borrows t) (h' : t.Borrows u) : s.Borrows u :=
  Relation.ReflTransGen.trans h h'

theorem reads (h : s.Borrows t) : s.Reads t := by
  induction h with
  | refl => exact .refl s
  | tail _ hlast ih =>
    obtain ⟨tx, id, page, hacquire⟩ := hlast
    exact ih.trans (reads_of_acquire hacquire).1

theorem disk_eq (h : s.Borrows t) : t.disk = s.disk := h.reads.disk_eq

/-- Reading changes nothing that is seen. -/
theorem stays (h : s.Borrows t) (hs : s.Backed) : s.Stays t := by
  induction h with
  | refl => exact hs.stays_self
  | tail _ hlast ih =>
    obtain ⟨tx, id, page, hacquire⟩ := hlast
    exact ih.trans (ih.1.backed.acquire hacquire).1

theorem tidy (h : s.Borrows t) (hs : s.Tidy) : t.Tidy := by
  induction h with
  | refl => exact hs
  | tail _ hlast ih =>
    obtain ⟨tx, id, page, hacquire⟩ := hlast
    exact (ih.acquire hacquire).1.tidy ih

end Borrows

theorem Acquires.borrows (h : Acquires tx s t) : s.Borrows t :=
  Relation.ReflTransGen.mono (fun _ _ hacquire => ⟨tx, hacquire⟩) _ _ h

/-- A store is lighter than one in which somebody reads. -/
theorem Lighter.borrowed (h : s.Lighter u) (hborrows : s.Borrows t) : t.Lighter u := by
  induction hborrows with
  | refl => exact h
  | tail _ hlast ih =>
    obtain ⟨tx, id, page, hacquire⟩ := hlast
    exact ih.acquired hacquire

end Store

namespace Engine

variable {e e' e'' : Engine} {db : Nat} {s : Store}

/-- Pages of the databases are acquired for some transactions. -/
structure Borrows (e e' : Engine) : Prop where
  disk_eq : e'.disk = e.disk
  length_eq : e'.databases.length = e.databases.length
  store : ∀ db, (e.store db).Borrows (e'.store db)

namespace Borrows

theorem refl (e : Engine) : e.Borrows e := ⟨rfl, rfl, fun _ => .refl _⟩

theorem trans (h : e.Borrows e') (h' : e'.Borrows e'') : e.Borrows e'' where
  disk_eq := h'.disk_eq.trans h.disk_eq
  length_eq := h'.length_eq.trans h.length_eq
  store := fun db => (h.store db).trans (h'.store db)

theorem of_store (hs : (e.store db).Borrows s) : e.Borrows (e.setStore db s) where
  disk_eq := hs.disk_eq
  length_eq := List.length_set
  store := by
    intro other
    rcases e.store_setStore_cases db s other with ⟨rfl, -, hstore⟩ | hstore <;> rw [hstore]
    · exact hs
    · rw [hs.disk_eq]
      exact .refl _

end Borrows

end Engine

namespace Operator

variable {e₀ e e' : Engine} {op op' child child' left right : Operator} {s t : Operator × Engine}

/-! ### Opening -/

theorem borrows_andThen {α β : Type} {o : Pulled α} {keep : Operator × Engine → Operator × Engine}
    {next : α → Operator × Engine → Pulled β} (h : e.Borrows o.2.2) (hkeep : ∀ s, (keep s).2 = s.2)
    (hnext : ∀ a op e', e.Borrows e' → e.Borrows (next a (op, e')).2.2) :
    e.Borrows (o.andThen keep next).2.2 := by
  obtain ⟨cause | a, op, e'⟩ := o
  · rw [Outcome.andThen_error, hkeep]
    exact h
  · exact hnext a op e' h

/-- A tree that is opened acquires pages, and does no more. -/
theorem borrows_start (op : Operator) (e : Engine) : e.Borrows (op.start e).2.2 := by
  induction op generalizing e with
  | rows => exact .refl e
  | scan db table label schema place c =>
    have hacquires := place.acquires_start (e.store db)
    unfold start
    generalize place.start (e.store db) = o at hacquires ⊢
    obtain ⟨cause | u, place', s⟩ := o
    · exact .of_store hacquires.borrows
    · exact .of_store hacquires.borrows
  | filter p child c ih => exact borrows_andThen (ih e) (fun _ => rfl) fun _ _ _ he => he
  | nestedLoop planned p left right schema current c ihl ihr =>
    exact borrows_andThen (ihl e) (fun _ => rfl) fun _ _ e' he =>
      borrows_andThen (he.trans (ihr e')) (fun _ => rfl) fun _ _ _ he => he
  | hashJoin planned p left right schema table pending c ihl ihr =>
    exact borrows_andThen (ihl e) (fun _ => rfl) fun _ _ e' he =>
      borrows_andThen (he.trans (ihr e')) (fun _ => rfl) fun _ _ _ he => he
  | aggregate column group fn child schema results c ih =>
    exact borrows_andThen (ih e) (fun _ => rfl) fun _ _ _ he => he
  | insert db tx table tableSchema child done c ih =>
    exact borrows_andThen (ih e) (fun _ => rfl) fun _ _ _ he => he
  | delete db tx child done c ih =>
    exact borrows_andThen (ih e) (fun _ => rfl) fun _ _ _ he => he

/-! ### Trees that are open -/

/-- All operators of a tree are open. -/
def AllOpen : Operator → Prop
  | rows _ _ _ c | scan _ _ _ _ _ c => c.isOpen = true
  | filter _ child c | aggregate _ _ _ child _ _ c | insert _ _ _ _ child _ c
  | delete _ _ child _ c => c.isOpen = true ∧ child.AllOpen
  | nestedLoop _ _ left right _ _ c | hashJoin _ _ left right _ _ _ c =>
    c.isOpen = true ∧ left.AllOpen ∧ right.AllOpen

theorem AllOpen.steady (h : op.AllOpen) (hsteady : op.Steady False e) : op.Steady True e := by
  induction op with
  | rows => exact fun _ => h
  | scan => exact fun _ => h
  | filter p child c ih => exact ⟨fun _ => h.1, ih h.2 hsteady.2⟩
  | nestedLoop planned p left right schema current c ihl ihr =>
    exact ⟨fun _ => h.1, ihl h.2.1 hsteady.2.1, ihr h.2.2 hsteady.2.2⟩
  | hashJoin planned p left right schema table pending c ihl ihr =>
    obtain ⟨-, hl, hr, htable⟩ := hsteady
    exact ⟨fun _ => h.1, ihl h.2.1 hl, ihr h.2.2 hr, htable⟩
  | aggregate column group fn child schema results c ih =>
    exact ⟨fun _ => h.1, ih h.2 hsteady.2⟩
  | insert => exact hsteady.elim
  | delete => exact hsteady.elim

theorem AllOpen.mapCursor (h : op.AllOpen) {change : Cursor → Cursor}
    (hchange : (change op.cursor).isOpen = op.cursor.isOpen) : (op.mapCursor change).AllOpen := by
  cases op with
  | rows | scan => exact hchange.trans h
  | _ => exact ⟨hchange.trans h.1, h.2⟩

/-- An operator opens a child, and goes on from there. -/
theorem allOpen_andThen {o : Pulled Unit} {keep : Operator × Engine → Operator × Engine}
    {next : Unit → Operator × Engine → Pulled Unit}
    (h : op.AllOpen ∨ (o.andThen keep next).1 = .ok ())
    (ho : child.AllOpen ∨ o.1 = .ok () → o.2.1.AllOpen) (hchild : op.AllOpen → child.AllOpen)
    (hkeep : ∀ s : Operator × Engine, op.AllOpen → s.1.AllOpen → (keep s).1.AllOpen)
    (hnext : ∀ s : Operator × Engine, s.1.AllOpen → op.AllOpen ∨ (next () s).1 = .ok () →
      (next () s).2.1.AllOpen) :
    (o.andThen keep next).2.1.AllOpen := by
  obtain ⟨cause | u, s⟩ := o
  · have hop := h.resolve_right (by rintro ⟨⟩)
    exact hkeep s hop (ho (.inl (hchild hop)))
  · exact hnext s (ho (.inr rfl)) h

/-- An opening that succeeds opens all operators of a tree, and one that fails closes none. -/
theorem allOpen_start (op : Operator) (e : Engine) (h : op.AllOpen ∨ (op.start e).1 = .ok ()) :
    (op.start e).2.1.AllOpen := by
  induction op generalizing e with
  | rows => rfl
  | scan db table label schema place c =>
    unfold start at h ⊢
    generalize place.start (e.store db) = o at h ⊢
    obtain ⟨cause | u, place', s⟩ := o
    · exact h.resolve_right (by rintro ⟨⟩)
    · rfl
  | filter p child c ih =>
    exact allOpen_andThen h (ih e) And.right (fun _ hop hs => ⟨hop.1, hs⟩)
      fun _ hs _ => ⟨rfl, hs⟩
  | nestedLoop planned p left right schema current c ihl ihr =>
    refine allOpen_andThen h (ihl e) (fun hop => hop.2.1) (fun _ hop hl => ⟨hop.1, hl, hop.2.2⟩)
      fun s hl h => ?_
    exact allOpen_andThen h (ihr s.2) (fun hop => hop.2.2) (fun _ hop hr => ⟨hop.1, hl, hr⟩)
      fun _ hr _ => ⟨rfl, hl, hr⟩
  | hashJoin planned p left right schema table pending c ihl ihr =>
    refine allOpen_andThen h (ihl e) (fun hop => hop.2.1) (fun _ hop hl => ⟨hop.1, hl, hop.2.2⟩)
      fun s hl h => ?_
    exact allOpen_andThen h (ihr s.2) (fun hop => hop.2.2) (fun _ hop hr => ⟨hop.1, hl, hr⟩)
      fun _ hr _ => ⟨rfl, hl, hr⟩
  | aggregate column group fn child schema results c ih =>
    exact allOpen_andThen h (ih e) And.right (fun _ hop hs => ⟨hop.1, hs⟩)
      fun _ hs _ => ⟨rfl, hs⟩
  | insert db tx table tableSchema child done c ih =>
    exact allOpen_andThen h (ih e) And.right (fun _ hop hs => ⟨hop.1, hs⟩)
      fun _ hs _ => ⟨rfl, hs⟩
  | delete db tx child done c ih =>
    exact allOpen_andThen h (ih e) And.right (fun _ hop hs => ⟨hop.1, hs⟩)
      fun _ hs _ => ⟨rfl, hs⟩

/-! ### Calls -/

/-- A tree and databases after a call that borrows pages. -/
structure Lent (op : Operator) (e : Engine) (s : Operator × Engine) : Prop where
  fresh_eq : s.1.fresh = op.fresh
  borrows : e.Borrows s.2
  allOpen : op.AllOpen → s.1.AllOpen

namespace Lent

theorem refl (op : Operator) (e : Engine) : op.Lent e (op, e) := ⟨rfl, .refl e, id⟩

theorem trans (h : op.Lent e s) (h' : s.1.Lent s.2 t) : op.Lent e t :=
  ⟨h'.fresh_eq.trans h.fresh_eq, h.borrows.trans h'.borrows, h'.allOpen ∘ h.allOpen⟩

/-- A child makes a call, and the operator goes on or not. -/
theorem andThen {α β : Type} {o : Pulled α} {keep : Operator × Engine → Operator × Engine}
    {next : α → Operator × Engine → Pulled β} (h : child.Lent e' o.2)
    (hkeep : ∀ s, child.Lent e' s → op.Lent e (keep s))
    (hnext : ∀ a child' e'', child.Lent e' (child', e'') → op.Lent e (next a (child', e'')).2) :
    op.Lent e (o.andThen keep next).2 := by
  obtain ⟨cause | a, child', e''⟩ := o
  · exact hkeep _ h
  · exact hnext a child' e'' h

section

variable {p : Predicate} {jp : JoinPredicate} {planned : Bool} {schema : Schema}
  {c c' : Cursor} {column : Nat} {group : Option Nat} {fn : AggregateFunction}
  {current current' : Option Tuple} {table table' : Option (List (Value × Tuple))}
  {pending pending' : List Tuple} {results results' : Option (List Tuple)}

theorem filter (h : child.Lent e (child', e')) (hc : c'.isOpen = c.isOpen) :
    (filter p child c).Lent e (filter p child' c', e') where
  fresh_eq := congrArg (Operator.filter p · {}) h.fresh_eq
  borrows := h.borrows
  allOpen := fun hop => ⟨hc.trans hop.1, h.allOpen hop.2⟩

theorem loop_left (h : left.Lent e (child', e')) (hc : c'.isOpen = c.isOpen) :
    (nestedLoop planned jp left right schema current c).Lent e
      (nestedLoop planned jp child' right schema current' c', e') where
  fresh_eq := congrArg (nestedLoop planned jp · right.fresh schema none {}) h.fresh_eq
  borrows := h.borrows
  allOpen := fun hop => ⟨hc.trans hop.1, h.allOpen hop.2.1, hop.2.2⟩

theorem loop_right (h : right.Lent e (child', e')) (hc : c'.isOpen = c.isOpen) :
    (nestedLoop planned jp left right schema current c).Lent e
      (nestedLoop planned jp left child' schema current' c', e') where
  fresh_eq := congrArg (nestedLoop planned jp left.fresh · schema none {}) h.fresh_eq
  borrows := h.borrows
  allOpen := fun hop => ⟨hc.trans hop.1, hop.2.1, h.allOpen hop.2.2⟩

theorem hash_left (h : left.Lent e (child', e')) (hc : c'.isOpen = c.isOpen) :
    (hashJoin planned jp left right schema table pending c).Lent e
      (hashJoin planned jp child' right schema table' pending' c', e') where
  fresh_eq := congrArg (hashJoin planned jp · right.fresh schema none [] {}) h.fresh_eq
  borrows := h.borrows
  allOpen := fun hop => ⟨hc.trans hop.1, h.allOpen hop.2.1, hop.2.2⟩

theorem hash_right (h : right.Lent e (child', e')) (hc : c'.isOpen = c.isOpen) :
    (hashJoin planned jp left right schema table pending c).Lent e
      (hashJoin planned jp left child' schema table' pending' c', e') where
  fresh_eq := congrArg (hashJoin planned jp left.fresh · schema none [] {}) h.fresh_eq
  borrows := h.borrows
  allOpen := fun hop => ⟨hc.trans hop.1, hop.2.1, h.allOpen hop.2.2⟩

theorem aggregate (h : child.Lent e (child', e')) (hc : c'.isOpen = c.isOpen) :
    (aggregate column group fn child schema results c).Lent e
      (aggregate column group fn child' schema results' c', e') where
  fresh_eq := congrArg (Operator.aggregate column group fn · schema none {}) h.fresh_eq
  borrows := h.borrows
  allOpen := fun hop => ⟨hc.trans hop.1, h.allOpen hop.2⟩

end

end Lent

/-- A tree that is sent back borrows pages. -/
theorem rewind_lent (hop : op.Readable e₀) (e : Engine) : op.Lent e (op.rewind e).2 := by
  induction op generalizing e with
  | rows => exact ⟨rfl, .refl e, id⟩
  | scan db table label schema place c =>
    have hacquires := place.close.acquires_start (e.store db)
    have hfresh := place.close.fresh_start (e.store db)
    unfold rewind Scan.rewind
    generalize place.close.start (e.store db) = o at hacquires hfresh ⊢
    obtain ⟨cause | u, place', t⟩ := o
    · exact ⟨fresh_scan_congr hfresh, .of_store hacquires.borrows, id⟩
    · exact ⟨fresh_scan_congr hfresh, .of_store hacquires.borrows, id⟩
  | filter p child c ih =>
    exact (ih hop e).andThen (fun _ hs => hs.filter rfl) fun _ _ _ hs => hs.filter rfl
  | nestedLoop planned p left right schema current c ihl ihr =>
    refine (ihl hop.1 e).andThen (fun _ hs => hs.loop_left rfl) fun _ left' e' hl => ?_
    have hleft : ∀ current, (nestedLoop planned p left right schema current c).Lent e
        (nestedLoop planned p left' right schema current c, e') := fun _ => hl.loop_left rfl
    exact (ihr hop.2 e').andThen (fun _ hr => (hleft current).trans (hr.loop_right rfl))
      fun _ _ _ hr => (hleft current).trans (hr.loop_right rfl)
  | hashJoin planned p left right schema table pending c ihl ihr =>
    exact (ihr hop.2 e).andThen (fun _ hs => hs.hash_right rfl) fun _ _ _ hs => hs.hash_right rfl
  | aggregate column group fn child schema results c ih =>
    exact (ih hop e).andThen (fun _ hs => hs.aggregate rfl) fun _ _ _ hs => hs.aggregate rfl
  | insert => exact hop.elim
  | delete => exact hop.elim

/-- A row that was looked at is given without reading. -/
theorem Lent.pullWith {f : Operator → Engine → Pulled (Option Tuple)}
    (h : ∀ {op : Operator} (e : Engine), op.Readable e₀ → op.Lent e (f op e).2)
    (e : Engine) (hop : op.Readable e₀) : op.Lent e (pullWith f op e).2 := by
  rcases pullWith_cases f op e with ⟨-, hpull⟩ | ⟨row, -, -, hpull⟩ | ⟨-, hpull⟩ <;> rw [hpull]
  · exact .refl op e
  · exact ⟨fresh_mapCursor _ op, .refl e, fun hopen => hopen.mapCursor rfl⟩
  · exact h e hop

/-- All rows are taken from an operator into something that is not in the databases. -/
theorem Lent.drain {σ : Type} {pull : Operator → Engine → Pulled (Option Tuple)}
    (h : ∀ {op : Operator} (e : Engine), op.Readable e₀ → op.Lent e (pull op e).2)
    {take : σ → Tuple → Except DbError σ} {takeFrom : σ → Tuple → Engine → Outcome Engine σ}
    (hfrom : ∀ state row e', takeFrom state row e' =
      Outcome.ofExcept e' ((take state row).map fun state => (state, e')))
    (hop : op.Readable e₀) (m : Nat) (state : σ) (e : Engine) :
    op.Lent e (drainWith pull takeFrom m state op e).2 := by
  induction m generalizing state op e with
  | zero => exact .refl op e
  | succ m ih =>
    refine (h e hop).andThen (fun s hs => hs) fun row op' e' hs => ?_
    cases row with
    | none => exact hs
    | some row =>
      simp only [hfrom]
      cases take state row with
      | error cause => exact hs
      | ok state' => exact hs.trans (ih ((readable_congr hs.fresh_eq).2 hop) state' e')

/-! ### Rows that are made -/

theorem Lent.fetch_scan {db : Nat} {table : TableId} {label : String} {schema : Schema}
    {place : Scan} {c : Cursor} (n : Nat) (e : Engine) :
    (scan db table label schema place c).Lent e
      ((scan db table label schema place c).fetch (n + 1) e).2 := by
  have hacquires := place.acquires_hasNext (e.store db)
  have hfresh := place.fresh_hasNext (e.store db)
  rw [fetch]
  cases hmore : place.hasNext (e.store db) with
  | mk result state =>
    obtain ⟨place', t⟩ := state
    rw [hmore] at hacquires hfresh
    have hborrows : e.Borrows (e.setStore db t) := .of_store hacquires.borrows
    cases result with
    | error cause => exact ⟨fresh_scan_congr hfresh, hborrows, id⟩
    | ok more =>
      rcases Scan.hasNext_cases hmore with ⟨rfl, -⟩ | ⟨rfl, row, rest, hrest⟩
      · exact ⟨fresh_scan_congr hfresh, hborrows, id⟩
      · simp only [Scan.next_of_rest hrest]
        exact ⟨fresh_scan_congr hfresh, hborrows, id⟩

section Fetch

variable {n : Nat} {planned : Bool} {p : JoinPredicate} {schema : Schema} {c : Cursor}
  (ih : ∀ {op : Operator} (e : Engine), op.Readable e₀ → op.Lent e (op.fetch n e).2)
include ih

/-- An operator goes on by making its next row anew. -/
theorem Lent.then_fetch (h : op.Lent e (op', e')) (hop : op.Readable e₀) :
    op.Lent e (op'.fetch n e').2 :=
  h.trans (ih e' ((readable_congr h.fresh_eq).2 hop))

theorem Lent.fetch_filter {p : Predicate} (hop : (Operator.filter p child c).Readable e₀)
    (e : Engine) :
    (Operator.filter p child c).Lent e ((Operator.filter p child c).fetch (n + 1) e).2 := by
  have hchild : child.Readable e₀ := hop
  rw [fetch]
  refine (Lent.pullWith ih e hchild).andThen (fun _ hs => hs.filter rfl) fun row child' e' hs => ?_
  have hsame : (Operator.filter p child c).Lent e (Operator.filter p child' c, e') := hs.filter rfl
  cases row with
  | none => exact hsame
  | some row =>
    dsimp only
    split
    · exact hsame
    · exact hsame
    · exact hsame.then_fetch ih hop

theorem Lent.fetch_loop_none (hop : (nestedLoop planned p left right schema none c).Readable e₀)
    (e : Engine) :
    (nestedLoop planned p left right schema none c).Lent e
      ((nestedLoop planned p left right schema none c).fetch (n + 1) e).2 := by
  rw [fetch]
  refine (Lent.pullWith ih e hop.1).andThen (fun _ hs => hs.loop_left rfl) fun row left' e' hs => ?_
  have hsame : ∀ current, (nestedLoop planned p left right schema none c).Lent e
      (nestedLoop planned p left' right schema current c, e') := fun _ => hs.loop_left rfl
  cases row with
  | none => exact hsame none
  | some row => exact (hsame _).then_fetch ih hop

theorem Lent.fetch_loop_some {l : Tuple}
    (hop : (nestedLoop planned p left right schema (some l) c).Readable e₀) (e : Engine) :
    (nestedLoop planned p left right schema (some l) c).Lent e
      ((nestedLoop planned p left right schema (some l) c).fetch (n + 1) e).2 := by
  rw [fetch]
  refine (Lent.pullWith ih e hop.2).andThen (fun _ hs => hs.loop_right rfl)
    fun row right' e' hs => ?_
  have hsame : ∀ current, (nestedLoop planned p left right schema (some l) c).Lent e
      (nestedLoop planned p left right' schema current c, e') := fun _ => hs.loop_right rfl
  cases row with
  | none =>
    -- the right child goes back to its start
    have hagain : ∀ {s current}, right'.Lent e' s →
        (nestedLoop planned p left right schema (some l) c).Lent e
          (nestedLoop planned p left s.1 schema current c, s.2) := fun ht =>
      (hsame none).trans (ht.loop_right rfl)
    exact (rewind_lent ((readable_congr hs.fresh_eq).2 hop.2) e').andThen
      (fun _ ht => hagain ht) fun _ right'' e'' ht => (hagain ht).then_fetch ih hop
  | some row =>
    dsimp only
    split
    · exact hsame _
    · exact hsame _
    · exact (hsame _).then_fetch ih hop

theorem Lent.fetch_hash_none {pending : List Tuple}
    (hop : (hashJoin planned p left right schema none pending c).Readable e₀) (e : Engine) :
    (hashJoin planned p left right schema none pending c).Lent e
      ((hashJoin planned p left right schema none pending c).fetch (n + 1) e).2 := by
  rw [fetch]
  exact (Lent.drain (Lent.pullWith ih) (takeKeyed_eq p.left) hop.1 n [] e).andThen
    (fun _ hs => hs.hash_left rfl) fun _ _ _ hs => (hs.hash_left rfl).then_fetch ih hop

theorem Lent.fetch_hash_nil {table : List (Value × Tuple)}
    (hop : (hashJoin planned p left right schema (some table) [] c).Readable e₀) (e : Engine) :
    (hashJoin planned p left right schema (some table) [] c).Lent e
      ((hashJoin planned p left right schema (some table) [] c).fetch (n + 1) e).2 := by
  rw [fetch]
  refine (Lent.pullWith ih e hop.2).andThen (fun _ hs => hs.hash_right rfl)
    fun row right' e' hs => ?_
  have hsame : ∀ pending, (hashJoin planned p left right schema (some table) [] c).Lent e
      (hashJoin planned p left right' schema (some table) pending c, e') := fun _ =>
    hs.hash_right rfl
  cases row with
  | none => exact hsame []
  | some probe =>
    dsimp only
    split
    · exact hsame []
    · exact (hsame _).then_fetch ih hop

theorem Lent.fetch_aggregate_none {column : Nat} {group : Option Nat} {fn : AggregateFunction}
    (hop : (Operator.aggregate column group fn child schema none c).Readable e₀) (e : Engine) :
    (Operator.aggregate column group fn child schema none c).Lent e
      ((Operator.aggregate column group fn child schema none c).fetch (n + 1) e).2 := by
  have hchild : child.Readable e₀ := hop
  rw [fetch]
  split
  · exact .refl _ e
  · rename_i a hnew
    refine (Lent.drain (Lent.pullWith ih) takeSummary_eq hchild n a e).andThen
      (fun _ hs => hs.aggregate rfl) fun a child' e' hs => ?_
    dsimp only
    split
    · exact hs.aggregate rfl
    · exact (hs.aggregate rfl).then_fetch ih hop

end Fetch

/-- A tree that makes its next row borrows pages, if it succeeds or not. -/
theorem fetch_lent (n : Nat) (hop : op.Readable e₀) (e : Engine) :
    op.Lent e (op.fetch n e).2 := by
  induction n generalizing op e with
  | zero => exact .refl op e
  | succ n ih =>
    have ih : ∀ {op : Operator} (e : Engine), op.Readable e₀ → op.Lent e (op.fetch n e).2 :=
      fun e hop => ih hop e
    match op with
    | rows _ _ [] _ => exact .refl _ e
    | rows _ _ (_ :: _) _ => exact ⟨rfl, .refl e, id⟩
    | scan .. => exact .fetch_scan n e
    | filter .. => exact .fetch_filter ih hop e
    | nestedLoop _ _ _ _ _ none _ => exact .fetch_loop_none ih hop e
    | nestedLoop _ _ _ _ _ (some _) _ => exact .fetch_loop_some ih hop e
    | hashJoin _ _ _ _ _ none _ _ => exact .fetch_hash_none ih hop e
    | hashJoin _ _ _ right _ (some _) (_ :: _) _ => exact (Lent.refl right e).hash_right rfl
    | hashJoin _ _ _ _ _ (some _) [] _ => exact .fetch_hash_nil ih hop e
    | aggregate _ _ _ _ _ none _ => exact .fetch_aggregate_none ih hop e
    | aggregate _ _ _ _ _ (some []) _ => exact .refl _ e
    | aggregate _ _ _ child _ (some (_ :: _)) _ => exact (Lent.refl child e).aggregate rfl
    | insert .. => exact hop.elim
    | delete .. => exact hop.elim

theorem pull_lent (n : Nat) (hop : op.Readable e₀) (e : Engine) : op.Lent e (op.pull n e).2 :=
  Lent.pullWith (fun e hop => fetch_lent n hop e) e hop

theorem Lent.of_pull {n : Nat} {result : Except DbError (Option Tuple)} (hop : op.Readable e₀)
    (h : op.pull n e = (result, s)) : op.Lent e s := by
  have hlent := pull_lent n hop e
  rwa [h] at hlent

end Operator

end Rowstore
