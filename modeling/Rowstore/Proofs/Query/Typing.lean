import Mathlib
import Rowstore.Proofs.Query.Draining
import Rowstore.Proofs.Query.Moving
import Rowstore.Proofs.Query.Replaying
import Rowstore.Proofs.Store.Typing

/-!
# Typed operators

Operators that are built of typed rows and of tables, with columns that are there, are typed: what
they keep has the types of their schemas, `Operator.Typed`. Every call leaves a typed operator typed
and gives rows that are typed, `Operator.fetch_leaves`, and none fails because a column is not
there, has no value or has a value of another type.

A `Session` is all that can be done with such operators, one after another or together, while
anything happens to the databases. Each of them can be called, or be the child of another one, or be
taken out of it. `Session.rows_typed` says what it comes to.
-/

namespace Rowstore

/-- A column is not there, has no value, or is not of the type that is wanted. -/
def DbError.isTyping : DbError → Bool
  | fieldIndexOutOfRange .. | fieldNotSet _ | typeMismatch .. | illegalAggregate .. => true
  | _ => false

/-- A failure has nothing to do with columns and their types. -/
def WellTyped {α : Type} (x : Except DbError α) : Prop := FailsOnly (fun cause => !cause.isTyping) x

theorem WellTyped.of_paging {α : Type} {x : Except DbError α} (h : FailsOnly DbError.isPaging x) :
    WellTyped x := by
  refine h.mono fun {cause} hcause => ?_
  cases cause <;> first | rfl | cases hcause

/-! ### Aggregators -/

theorem Schema.exists_column {schema : Schema} {index : Nat} (h : index < schema.arity) :
    ∃ c, schema.column index = .ok c ∧ schema.types[index]? = some c.type := by
  have hcolumn : schema.column index = .ok schema.columns[index] := by
    unfold column
    rw [List.getElem?_eq_getElem h]
  exact ⟨_, hcolumn, types_getElem? hcolumn⟩

namespace Aggregator

variable {a : Aggregator} {input : Schema} {row : Tuple}

/-- An aggregator is one over rows of a schema, and the groups it has are of the grouping type. -/
structure Typed (input : Schema) (a : Aggregator) : Prop where
  column : input.types[a.column]? = some a.input
  grouping : ∀ {g type}, a.grouping = some (g, type) → input.types[g]? = some type
  groups : ∀ {key acc}, (key, acc) ∈ a.groups → key.map Value.type = a.grouping.map Prod.snd

theorem mem_addTo {fn : AggregateFunction} {key k : Option Value} {n : Int} {acc : Accumulator}
    {groups : List (Option Value × Accumulator)} (h : (k, acc) ∈ addTo fn key n groups) :
    k = key ∨ ∃ acc', (k, acc') ∈ groups := by
  induction groups with
  | nil =>
    cases List.mem_singleton.1 h
    exact .inl rfl
  | cons group groups ih =>
    obtain ⟨k', acc'⟩ := group
    unfold addTo at h
    split_ifs at h with hkey
    · rcases List.mem_cons.1 h with heq | htail
      · cases heq
        exact .inl hkey
      · exact .inr ⟨acc, List.mem_cons_of_mem _ htail⟩
    · rcases List.mem_cons.1 h with heq | htail
      · cases heq
        exact .inr ⟨_, List.mem_cons_self ..⟩
      · exact (ih htail).imp_right fun hmem => hmem.imp fun _ => List.mem_cons_of_mem _

/-- A value of the input type counts as a number. -/
theorem exists_number {v : Value} {type : ColumnType} (h : v.type = type) :
    ∃ n, number type v = .ok n := by
  subst h
  cases v <;> exact ⟨_, rfl⟩

namespace Typed

theorem groupKey (h : a.Typed input) (hrow : row.Typed input) :
    ∃ key, Rowstore.groupKey a.grouping row = .ok key ∧
      key.map Value.type = a.grouping.map Prod.snd := by
  cases hgrouping : a.grouping with
  | none => exact ⟨none, rfl, rfl⟩
  | some grouping =>
    obtain ⟨g, type⟩ := grouping
    obtain ⟨v, hv, htype⟩ := hrow.field (h.grouping hgrouping)
    refine ⟨some v, bind_eq_ok_iff.2 ⟨v, hv, ?_⟩, congrArg some htype⟩
    rw [if_neg (not_not.2 htype)]
    rfl

/-- A typed row is taken in. -/
theorem merge (h : a.Typed input) (hrow : row.Typed input) :
    ∃ a', a.merge row = .ok a' ∧ a'.Typed input ∧ a'.schema = a.schema := by
  unfold Aggregator.merge
  split_ifs
  · exact ⟨a, rfl, h, rfl⟩
  · obtain ⟨v, hv, htype⟩ := hrow.field h.column
    obtain ⟨n, hn⟩ := exists_number htype
    obtain ⟨key, hkey, hkeyType⟩ := h.groupKey hrow
    refine ⟨{ a with groups := addTo a.fn key n a.groups },
      bind_eq_ok_iff.2 ⟨v, hv, bind_eq_ok_iff.2 ⟨n, hn, bind_eq_ok_iff.2 ⟨key, hkey, rfl⟩⟩⟩,
      ⟨h.column, h.grouping, ?_⟩, rfl⟩
    intro k acc hmem
    rcases mem_addTo hmem with rfl | ⟨acc', hold⟩
    · exact hkeyType
    · exact h.groups hold

end Typed

/-- The row of a group has the group's value and a number. -/
theorem typed_resultRow {key : Option Value} {result : Int} {t : Tuple}
    (hkey : key.map Value.type = a.grouping.map Prod.snd)
    (h : resultRow a.schema key result = .ok t) : t.Typed a.schema := by
  unfold resultRow at h
  split_ifs at h
  cases h
  refine ⟨.refl _, ?_⟩
  unfold Aggregator.schema
  generalize a.grouping = grouping at hkey
  match grouping, key, hkey with
  | none, none, _ => rfl
  | some (g, _), some v, rfl => rfl

theorem resultRow_wellTyped (schema : Schema) (key : Option Value) (result : Int) :
    WellTyped (resultRow schema key result) := by
  unfold resultRow
  split_ifs
  · exact .error rfl
  · exact .ok _

theorem rows_wellTyped (a : Aggregator) : WellTyped a.rows := by
  unfold rows
  split_ifs
  · exact .ok []
  · exact FailsOnly.map (resultRow_wellTyped a.schema none 0) _
  · refine FailsOnly.mapM ?_ _
    rintro ⟨key, acc⟩
    exact resultRow_wellTyped a.schema key _

/-- Each row of the results is that of a group, or of no group if there are no groups. -/
theorem exists_resultRow {found : List Tuple} (hrows : a.rows = .ok found) (hrow : row ∈ found) :
    ∃ key result, resultRow a.schema key result = .ok row ∧
      ((key = none ∧ a.grouping = none) ∨ ∃ acc, (key, acc) ∈ a.groups) := by
  unfold rows at hrows
  split_ifs at hrows with hreserved hempty
  · cases hrows
    cases hrow
  · cases hresult : resultRow a.schema none 0 with
    | error cause =>
      rw [hresult] at hrows
      cases hrows
    | ok t =>
      rw [hresult] at hrows
      cases hrows
      obtain rfl := List.mem_singleton.1 hrow
      exact ⟨none, 0, hresult, .inl ⟨rfl, Option.isNone_iff_eq_none.1 hempty.2.1⟩⟩
  · have hresults := mapM_eq_ok_iff.1 hrows
    obtain ⟨i, hi, rfl⟩ := List.mem_iff_get.1 hrow
    have hi : i.1 < a.groups.length := hresults.length_eq.symm ▸ i.2
    exact ⟨_, _, hresults.get hi i.2, .inr ⟨_, List.get_mem _ ⟨i.1, hi⟩⟩⟩

theorem Typed.rows (h : a.Typed input) {found : List Tuple} (hrows : a.rows = .ok found) :
    ∀ row ∈ found, row.Typed a.schema := by
  intro row hrow
  obtain ⟨key, result, hresult, ⟨rfl, hnone⟩ | ⟨acc, hmem⟩⟩ := exists_resultRow hrows hrow
  · exact typed_resultRow (by rw [hnone]; rfl) hresult
  · exact typed_resultRow (h.groups hmem) hresult

end Aggregator

/-- What an aggregate begins with if its schema could be made. -/
theorem Operator.newAggregator_typed {input schema : Schema} {column : Nat} {group : Option Nat}
    {fn : AggregateFunction} (h : aggregateSchema input column group fn = .ok schema) :
    ∃ a, newAggregator input column group fn = .ok a ∧ a.Typed input ∧
      schema.types = a.schema.types := by
  obtain ⟨summarised, hcolumn, h⟩ := bind_eq_ok_iff.1 h
  have hinput := Schema.types_getElem? hcolumn
  split_ifs at h with hstring
  · cases h
  · have hnew : ∀ grouping, (do
        let summarised ← input.column column
        Aggregator.new summarised.type grouping column fn) =
          .ok ⟨summarised.type, grouping, column, fn, []⟩ := fun grouping =>
      bind_eq_ok_iff.2 ⟨summarised, hcolumn, if_neg hstring⟩
    cases group with
    | none =>
      cases h
      exact ⟨_, hnew none, ⟨hinput, nofun, nofun⟩, rfl⟩
    | some g =>
      obtain ⟨grouping, hgrouping, h⟩ := bind_eq_ok_iff.1 h
      cases h
      refine ⟨_, bind_eq_ok_iff.2 ⟨grouping, hgrouping, hnew (some (g, grouping.type))⟩,
        ⟨hinput, ?_, nofun⟩, rfl⟩
      rintro _ _ ⟨⟩
      exact Schema.types_getElem? hgrouping

/-! ### Predicates -/

/-- A typed row has a value in a column that is there. -/
theorem Tuple.Typed.exists_field {t : Tuple} {schema : Schema} (h : t.Typed schema) {index : Nat}
    (hindex : index < schema.arity) : ∃ v, t.field index = .ok v := by
  obtain ⟨c, -, htype⟩ := Schema.exists_column hindex
  exact (h.field htype).imp fun _ => And.left

theorem Predicate.exists_holds {p : Predicate} {row : Tuple} {schema : Schema}
    (hrow : row.Typed schema) (hcolumn : p.column < schema.arity) : ∃ b, p.holds row = .ok b := by
  obtain ⟨v, hv⟩ := hrow.exists_field hcolumn
  exact ⟨_, by rw [Predicate.holds, hv]; rfl⟩

namespace JoinPredicate

/-- The columns that a predicate compares are there. -/
def InRange (p : JoinPredicate) (left right : Schema) : Prop :=
  p.left < left.arity ∧ p.right < right.arity

instance (p : JoinPredicate) (left right : Schema) : Decidable (p.InRange left right) :=
  inferInstanceAs (Decidable (_ ∧ _))

theorem exists_holds {p : JoinPredicate} {l r : Tuple} {left right : Schema} (hl : l.Typed left)
    (hr : r.Typed right) (h : p.InRange left right) : ∃ b, p.holds l r = .ok b := by
  obtain ⟨a, ha⟩ := hl.exists_field h.1
  obtain ⟨b, hb⟩ := hr.exists_field h.2
  exact ⟨_, bind_eq_ok_iff.2 ⟨a, ha, bind_eq_ok_iff.2 ⟨b, hb, rfl⟩⟩⟩

end JoinPredicate

/-! ### Operators -/

/-- The row that was looked at is typed. -/
def Cursor.Typed (schema : Schema) (c : Cursor) : Prop := ∀ t ∈ c.peeked, t.Typed schema

theorem Cursor.Typed.setOpen {schema : Schema} {c : Cursor} (h : c.Typed schema) (isOpen : Bool) :
    (c.setOpen isOpen).Typed schema := by
  cases isOpen with
  | false => exact nofun
  | true => exact h

theorem Cursor.typed_clear (schema : Schema) (c : Cursor) : c.clear.Typed schema := nofun

namespace Operator

variable {created created' : Nat → TableId → Option (List ColumnType)}
  {op op' child left right : Operator} {e : Engine} {s : Operator × Engine} {n : Nat}

/-- What an operator keeps has the types of its schema and of those of its children. -/
def Typed (created : Nat → TableId → Option (List ColumnType)) : Operator → Prop
  | rows schema all rest c =>
    (∀ row ∈ all, row.Typed schema) ∧ (∀ row ∈ rest, row.Typed schema) ∧ c.Typed schema
  | scan db _ _ schema place c => place.Typed (created db) schema ∧ c.Typed schema
  | filter p child c =>
    child.Typed created ∧ p.column < child.schema.arity ∧ c.Typed child.schema
  | nestedLoop _ p left right schema current c =>
    left.Typed created ∧ right.Typed created ∧
      (schema = left.schema.merge right.schema ∧ p.InRange left.schema right.schema) ∧
      (∀ row ∈ current, row.Typed left.schema) ∧ c.Typed schema
  | hashJoin _ p left right schema table pending c =>
    left.Typed created ∧ right.Typed created ∧
      (schema = left.schema.merge right.schema ∧ p.InRange left.schema right.schema) ∧
      (∀ entries ∈ table, ∀ entry ∈ entries, entry.2.Typed left.schema) ∧
      (∀ row ∈ pending, row.Typed schema) ∧ c.Typed schema
  | aggregate column group fn child schema results c =>
    child.Typed created ∧ aggregateSchema child.schema column group fn = .ok schema ∧
      (∀ rows ∈ results, ∀ row ∈ rows, (row.relabel schema).Typed schema) ∧ c.Typed schema
  | insert .. | delete .. => False

/-- Operators stay typed when further tables are created. -/
theorem Typed.extend (h : op.Typed created) (hextends : Engine.Extends created' created) :
    op.Typed created' := by
  induction op with
  | rows => exact h
  | scan db table label schema place c => exact ⟨⟨hextends h.1.table, h.1.rest⟩, h.2⟩
  | filter p child c ih => exact ⟨ih h.1, h.2⟩
  | nestedLoop planned p left right schema current c ihl ihr => exact ⟨ihl h.1, ihr h.2.1, h.2.2⟩
  | hashJoin planned p left right schema table pending c ihl ihr =>
    exact ⟨ihl h.1, ihr h.2.1, h.2.2⟩
  | aggregate column group fn child schema results c ih => exact ⟨ih h.1, h.2⟩
  | insert => exact h.elim
  | delete => exact h.elim

theorem Typed.cursor (h : op.Typed created) : op.cursor.Typed op.schema := by
  cases op with
  | rows | filter => exact h.2.2
  | scan => exact h.2
  | nestedLoop => exact h.2.2.2.2
  | hashJoin => exact h.2.2.2.2.2
  | aggregate => exact h.2.2.2
  | insert | delete => exact h.elim

section Children

variable {l r : Operator} {p : Predicate} {jp : JoinPredicate} {planned : Bool} {schema : Schema}
  {c : Cursor} {column : Nat} {group : Option Nat} {fn : AggregateFunction}

/-! Operators are typed when they are put together again, after a call, of children with the same
schemas. -/

theorem Typed.filter (hl : l.Typed created) (hschema : l.schema = child.schema)
    (hcolumn : p.column < child.schema.arity) (hc : c.Typed child.schema) :
    (filter p l c).Typed created := by
  unfold Typed
  rw [hschema]
  exact ⟨hl, hcolumn, hc⟩

theorem Typed.loop (hl : l.Typed created) (hr : r.Typed created) (hleft : l.schema = left.schema)
    (hright : r.schema = right.schema) {current : Option Tuple}
    (hp : schema = left.schema.merge right.schema ∧ jp.InRange left.schema right.schema)
    (hcurrent : ∀ row ∈ current, row.Typed left.schema) (hc : c.Typed schema) :
    (nestedLoop planned jp l r schema current c).Typed created := by
  unfold Typed
  rw [hleft, hright]
  exact ⟨hl, hr, hp, hcurrent, hc⟩

theorem Typed.hash (hl : l.Typed created) (hr : r.Typed created) (hleft : l.schema = left.schema)
    (hright : r.schema = right.schema) {table : Option (List (Value × Tuple))}
    {pending : List Tuple}
    (hp : schema = left.schema.merge right.schema ∧ jp.InRange left.schema right.schema)
    (htable : ∀ entries ∈ table, ∀ entry ∈ entries, entry.2.Typed left.schema)
    (hpending : ∀ row ∈ pending, row.Typed schema) (hc : c.Typed schema) :
    (hashJoin planned jp l r schema table pending c).Typed created := by
  unfold Typed
  rw [hleft, hright]
  exact ⟨hl, hr, hp, htable, hpending, hc⟩

theorem Typed.aggregate (hl : l.Typed created) (hschema : l.schema = child.schema)
    (hmade : aggregateSchema child.schema column group fn = .ok schema)
    {results : Option (List Tuple)}
    (hresults : ∀ rows ∈ results, ∀ row ∈ rows, (row.relabel schema).Typed schema)
    (hc : c.Typed schema) : (aggregate column group fn l schema results c).Typed created := by
  unfold Typed
  rw [hschema]
  exact ⟨hl, hmade, hresults, hc⟩

end Children

/-- The cursor of a typed operator can be changed. -/
theorem Typed.mapCursor (h : op.Typed created) {change : Cursor → Cursor}
    (hchange : (change op.cursor).Typed op.schema) : (op.mapCursor change).Typed created := by
  cases op with
  | rows | filter => exact ⟨h.1, h.2.1, hchange⟩
  | scan => exact ⟨h.1, hchange⟩
  | nestedLoop =>
    obtain ⟨hl, hr, hp, hcurrent, -⟩ := h
    exact ⟨hl, hr, hp, hcurrent, hchange⟩
  | hashJoin =>
    obtain ⟨hl, hr, hp, htable, hpending, -⟩ := h
    exact ⟨hl, hr, hp, htable, hpending, hchange⟩
  | aggregate => exact ⟨h.1, h.2.1, h.2.2.1, hchange⟩
  | insert | delete => exact h.elim

/-- The children of a typed operator are typed. -/
theorem Typed.of_mem_children (h : op.Typed created) (hchild : child ∈ op.children) :
    child.Typed created := by
  cases op with
  | rows | scan => cases hchild
  | filter | aggregate =>
    rw [List.mem_singleton.1 hchild]
    exact h.1
  | nestedLoop | hashJoin =>
    rcases List.mem_pair.1 hchild with rfl | rfl
    · exact h.1
    · exact h.2.1
  | insert | delete => exact h.elim

/-! ### What calls come to -/

/-- An operator is where another one was, with the same schema, and both it and the databases are
typed. -/
structure Stays (created : Nat → TableId → Option (List ColumnType)) (op : Operator)
    (s : Operator × Engine) : Prop where
  schema_eq : s.1.schema = op.schema
  typed : s.1.Typed created
  engine : s.2.Typed created

/-- What a call comes to leaves an operator typed, and gives a value of some kind. -/
structure Leaves {α : Type} (created : Nat → TableId → Option (List ColumnType)) (op : Operator)
    (P : α → Prop) (o : Pulled α) : Prop where
  stays : op.Stays created o.2
  value : ∀ {a}, o.1 = .ok a → P a
  fails : WellTyped o.1

/-- A call gives a typed row, or none. -/
abbrev GivesTyped (created : Nat → TableId → Option (List ColumnType)) (op : Operator)
    (o : Pulled (Option Tuple)) : Prop :=
  op.Leaves created (fun row => ∀ t ∈ row, t.Typed op.schema) o

namespace Leaves

variable {α β : Type} {P : α → Prop} {Q : β → Prop}

theorem ok {a : α} (hs : op.Stays created s) (ha : P a) : op.Leaves created P (.ok a, s) := by
  refine ⟨hs, ?_, .ok a⟩
  rintro _ ⟨⟩
  exact ha

theorem gave_none {R : Tuple → Prop} (hs : op.Stays created s) :
    op.Leaves created (fun row : Option Tuple => ∀ t ∈ row, R t) (.ok none, s) :=
  .ok hs nofun

theorem failed {cause : DbError} (hs : op.Stays created s)
    (hcause : WellTyped (.error cause : Except DbError α)) :
    op.Leaves created P (.error cause, s) :=
  ⟨hs, nofun, hcause⟩

theorem error {cause : DbError} (hs : op.Stays created s) (hcause : cause.isTyping = false) :
    op.Leaves created P (.error cause, s) :=
  .failed hs (.error (by rw [hcause]; rfl))

/-- Going on from a child that is left typed. -/
theorem andThen {o : Pulled α} {parent : Operator → Operator}
    {next : α → Operator × Engine → Pulled β} (h : child.Leaves created P o)
    (hparent : ∀ child', child'.schema = child.schema → child'.Typed created →
      (parent child').schema = op.schema ∧ (parent child').Typed created)
    (hnext : ∀ a child' e', P a → child'.schema = child.schema → child'.Typed created →
      e'.Typed created → op.Leaves created Q (next a (child', e'))) :
    op.Leaves created Q (o.andThen (under parent) next) := by
  obtain ⟨⟨hschema, htyped, hengine⟩, hvalue, hfails⟩ := h
  obtain ⟨cause | a, child', e'⟩ := o
  · obtain ⟨hschema', htyped'⟩ := hparent child' hschema htyped
    refine ⟨⟨hschema', htyped', hengine⟩, nofun, ?_⟩
    rintro cause ⟨⟩
    exact hfails cause rfl
  · exact hnext a child' e' (hvalue rfl) hschema htyped hengine

theorem andThen_id {o : Pulled α} {next : α → Operator × Engine → Pulled β}
    (h : op.Leaves created P o)
    (hnext : ∀ a op' e', P a → op'.schema = op.schema → op'.Typed created → e'.Typed created →
      op.Leaves created Q (next a (op', e'))) : op.Leaves created Q (o.andThen id next) := by
  show op.Leaves created Q (o.andThen (under fun op' => op') next)
  exact h.andThen (fun _ hs ht => ⟨hs, ht⟩) hnext

end Leaves

/-- What an operator gives after it has gone on is what it gives. -/
theorem GivesTyped.of_schema {o : Pulled (Option Tuple)} (h : op'.GivesTyped created o)
    (hschema : op'.schema = op.schema) : op.GivesTyped created o :=
  ⟨⟨h.stays.schema_eq.trans hschema, h.stays.typed, h.stays.engine⟩,
    fun ha => hschema ▸ h.value ha, h.fails⟩

/-! ### Opening, closing, rewinding -/

/-- Typed operators are opened, if the pages that they need can be had. -/
theorem start_leaves (h : op.Typed created) (he : e.Typed created) :
    op.Leaves created (fun _ => True) (op.start e) := by
  induction op generalizing e with
  | rows schema all rest c => exact .ok ⟨rfl, ⟨h.1, h.1, h.2.2.setOpen true⟩, he⟩ trivial
  | scan db table label schema place c =>
    obtain ⟨hplace, hc⟩ := h
    obtain ⟨hplace', hs⟩ := hplace.start (he db)
    have hfails := place.start_fails (e.store db)
    unfold start
    generalize place.start (e.store db) = o at hplace' hs hfails ⊢
    obtain ⟨cause | u, place', s⟩ := o
    · exact .failed ⟨rfl, ⟨hplace', hc⟩, he.setStore hs⟩ (.of_paging hfails)
    · exact .ok ⟨rfl, ⟨hplace', hc.setOpen true⟩, he.setStore hs⟩ trivial
  | filter p child c ih =>
    obtain ⟨hchild, hcolumn, hc⟩ := h
    exact (ih hchild he).andThen (fun child' hs ht => ⟨hs, .filter ht hs hcolumn hc⟩)
      fun _ child' e' _ hs ht he' => .ok ⟨hs, .filter ht hs hcolumn (hc.setOpen true), he'⟩ trivial
  | nestedLoop planned p left right schema current c ihl ihr =>
    obtain ⟨hleft, hright, hp, hcurrent, hc⟩ := h
    refine (ihl hleft he).andThen
      (fun l hl ht => ⟨rfl, .loop ht hright hl rfl hp hcurrent hc⟩) fun _ l e' _ hl htl he' => ?_
    exact (ihr hright he').andThen (fun r hr htr => ⟨rfl, .loop htl htr hl hr hp hcurrent hc⟩)
      fun _ r e'' _ hr htr he'' =>
        .ok ⟨rfl, .loop htl htr hl hr hp (by simp) (hc.setOpen true), he''⟩ trivial
  | hashJoin planned p left right schema table pending c ihl ihr =>
    obtain ⟨hleft, hright, hp, htable, hpending, hc⟩ := h
    refine (ihl hleft he).andThen (fun l hl ht =>
      ⟨rfl, .hash ht hright hl rfl hp htable hpending hc⟩) fun _ l e' _ hl htl he' => ?_
    exact (ihr hright he').andThen
      (fun r hr htr => ⟨rfl, .hash htl htr hl hr hp htable hpending hc⟩)
      fun _ r e'' _ hr htr he'' =>
        .ok ⟨rfl, .hash htl htr hl hr hp htable hpending (hc.setOpen true), he''⟩ trivial
  | aggregate column group fn child schema results c ih =>
    obtain ⟨hchild, hmade, hresults, hc⟩ := h
    exact (ih hchild he).andThen (fun child' hs ht => ⟨rfl, .aggregate ht hs hmade hresults hc⟩)
      fun _ child' e' _ hs ht he' =>
        .ok ⟨rfl, .aggregate ht hs hmade (by simp) (hc.setOpen true), he'⟩ trivial
  | insert => exact h.elim
  | delete => exact h.elim

/-- Typed operators are sent back, if the pages that they need can be had. -/
theorem rewind_leaves (h : op.Typed created) (he : e.Typed created) :
    op.Leaves created (fun _ => True) (op.rewind e) := by
  induction op generalizing e with
  | rows schema all rest c => exact .ok ⟨rfl, ⟨h.1, h.1, c.typed_clear schema⟩, he⟩ trivial
  | scan db table label schema place c =>
    obtain ⟨hplace, hc⟩ := h
    obtain ⟨hplace', hs⟩ := hplace.close.start (he db)
    have hfails := place.close.start_fails (e.store db)
    unfold rewind Scan.rewind
    generalize place.close.start (e.store db) = o at hplace' hs hfails ⊢
    obtain ⟨cause | u, place', s⟩ := o
    · exact .failed ⟨rfl, ⟨hplace', hc⟩, he.setStore hs⟩ (.of_paging hfails)
    · exact .ok ⟨rfl, ⟨hplace', c.typed_clear schema⟩, he.setStore hs⟩ trivial
  | filter p child c ih =>
    obtain ⟨hchild, hcolumn, hc⟩ := h
    exact (ih hchild he).andThen (fun child' hs ht => ⟨hs, .filter ht hs hcolumn hc⟩)
      fun _ child' e' _ hs ht he' => .ok ⟨hs, .filter ht hs hcolumn (c.typed_clear _), he'⟩ trivial
  | nestedLoop planned p left right schema current c ihl ihr =>
    obtain ⟨hleft, hright, hp, hcurrent, hc⟩ := h
    refine (ihl hleft he).andThen
      (fun l hl ht => ⟨rfl, .loop ht hright hl rfl hp hcurrent hc⟩) fun _ l e' _ hl htl he' => ?_
    exact (ihr hright he').andThen (fun r hr htr => ⟨rfl, .loop htl htr hl hr hp hcurrent hc⟩)
      fun _ r e'' _ hr htr he'' =>
        .ok ⟨rfl, .loop htl htr hl hr hp (by simp) (c.typed_clear schema), he''⟩ trivial
  | hashJoin planned p left right schema table pending c ihl ihr =>
    obtain ⟨hleft, hright, hp, htable, hpending, hc⟩ := h
    exact (ihr hright he).andThen
      (fun r hr htr => ⟨rfl, .hash hleft htr rfl hr hp htable hpending hc⟩)
      fun _ r e' _ hr htr he' =>
        .ok ⟨rfl, .hash hleft htr rfl hr hp htable (by simp) (c.typed_clear schema), he'⟩ trivial
  | aggregate column group fn child schema results c ih =>
    obtain ⟨hchild, hmade, hresults, hc⟩ := h
    exact (ih hchild he).andThen (fun child' hs ht => ⟨rfl, .aggregate ht hs hmade hresults hc⟩)
      fun _ child' e' _ hs ht he' =>
        .ok ⟨rfl, .aggregate ht hs hmade (by simp) (c.typed_clear schema), he'⟩ trivial
  | insert => exact h.elim
  | delete => exact h.elim

theorem schema_close (op : Operator) : op.close.schema = op.schema := by
  induction op with
  | filter p child c ih => exact ih
  | _ => rfl

/-- A typed operator that is closed is typed. -/
theorem Typed.close (h : op.Typed created) : op.close.Typed created := by
  induction op with
  | rows schema all rest c => exact ⟨h.1, h.2.1, h.2.2.setOpen false⟩
  | scan db table label schema place c => exact ⟨h.1.close, h.2.setOpen false⟩
  | filter p child c ih =>
    exact .filter (ih h.1) (schema_close child) h.2.1 (h.2.2.setOpen false)
  | nestedLoop planned p left right schema current c ihl ihr =>
    exact .loop (ihl h.1) (ihr h.2.1) (schema_close left) (schema_close right) h.2.2.1 nofun
      (h.cursor.setOpen false)
  | hashJoin planned p left right schema table pending c ihl ihr =>
    exact .hash (ihl h.1) (ihr h.2.1) (schema_close left) (schema_close right) h.2.2.1 nofun nofun
      (h.cursor.setOpen false)
  | aggregate column group fn child schema results c ih =>
    exact .aggregate (ih h.1) (schema_close child) h.2.1 nofun (h.cursor.setOpen false)
  | insert => exact h.elim
  | delete => exact h.elim

/-! ### Pulling -/

section Pulling

variable {p : Predicate} {jp : JoinPredicate} {planned : Bool} {schema : Schema} {c : Cursor}
  {db column : Nat} {group : Option Nat} {fn : AggregateFunction} {table : TableId}
  {f : Operator → Engine → Pulled (Option Tuple)}

/-- What is given behind the cursor is what was looked at, or else the next row. -/
theorem GivesTyped.pullWith
    (hf : ∀ {op : Operator} {e : Engine}, op.Typed created → e.Typed created →
      op.GivesTyped created (f op e))
    (h : op.Typed created) (he : e.Typed created) : op.GivesTyped created (pullWith f op e) := by
  unfold Operator.pullWith
  split_ifs
  · split
    · rename_i row hpeeked
      refine .ok ⟨schema_mapCursor _ op, h.mapCursor (Cursor.typed_clear _ _), he⟩ ?_
      rintro _ ⟨⟩
      exact h.cursor row hpeeked
    · exact hf h he
  · exact .error ⟨rfl, h, he⟩ rfl

/-- All rows are taken from a typed operator, by something that takes typed rows. -/
theorem Leaves.drain {σ : Type} {I : σ → Prop} {take : σ → Tuple → Engine → Outcome Engine σ}
    (hf : ∀ {op : Operator} {e : Engine}, op.Typed created → e.Typed created →
      op.GivesTyped created (f op e))
    (htake : ∀ {state row} e, I state → row.Typed schema →
      ∃ state', take state row e = (.ok state', e) ∧ I state')
    (hschema : op.schema = schema) (h : op.Typed created) (he : e.Typed created) {state : σ}
    (hstate : I state) (m : Nat) : op.Leaves created I (drainWith f take m state op e) := by
  induction m generalizing op e state with
  | zero => exact .error ⟨rfl, h, he⟩ rfl
  | succ m ih =>
    have hpull := hf h he
    unfold drainWith
    refine hpull.andThen_id ?_
    rintro (_ | row) op' e' hrow hsame hop' he'
    · exact .ok ⟨hsame, hop', he'⟩ hstate
    · obtain ⟨state', htaken, hstate'⟩ := htake e' hstate (hschema ▸ hrow row rfl)
      dsimp only
      rw [htaken, Outcome.andThen_ok]
      obtain ⟨hstays, hvalue, hfails⟩ := ih (hsame.trans hschema) hop' he' hstate'
      exact ⟨⟨hstays.schema_eq.trans hsame, hstays.typed, hstays.engine⟩, hvalue, hfails⟩

theorem gives_typed_scan {label : String} {place : Scan}
    (h : (scan db table label schema place c).Typed created) (he : e.Typed created) :
    (scan db table label schema place c).GivesTyped created
      ((scan db table label schema place c).fetch (n + 1) e) := by
  obtain ⟨hplace, hc⟩ := h
  obtain ⟨hplace', hs⟩ := hplace.hasNext (he db)
  have hfails := place.hasNext_fails (e.store db)
  rw [fetch]
  cases hmore : place.hasNext (e.store db) with
  | mk result state =>
    obtain ⟨place', s⟩ := state
    rw [hmore] at hplace' hs hfails
    have he' := he.setStore hs
    cases result with
    | error cause =>
      exact .failed ⟨rfl, ⟨hplace', hc⟩, he'⟩ (.of_paging (.error (hfails cause rfl)))
    | ok more =>
      rcases Scan.hasNext_cases hmore with ⟨rfl, -⟩ | ⟨rfl, row, rest, hrest⟩
      · exact .gave_none ⟨rfl, ⟨hplace', hc⟩, he'⟩
      · have hrows := hplace'.rest hrest
        simp only [Scan.next_of_rest hrest]
        refine .ok ⟨rfl, ⟨⟨hplace'.table, ?_⟩, hc⟩, he'⟩ ?_
        · rintro _ ⟨⟩
          exact fun row hrow => hrows row (List.mem_cons_of_mem _ hrow)
        · rintro _ ⟨⟩
          exact (hrows row (List.mem_cons_self ..)).relabel rfl

variable (ih : ∀ {op : Operator} {e : Engine}, op.Typed created → e.Typed created →
  op.GivesTyped created (op.fetch n e))

include ih

theorem gives_typed_filter (h : (filter p child c).Typed created) (he : e.Typed created) :
    (filter p child c).GivesTyped created ((filter p child c).fetch (n + 1) e) := by
  obtain ⟨hchild, hcolumn, hc⟩ := h
  rw [fetch]
  refine (GivesTyped.pullWith ih hchild he).andThen
    (fun child' hs ht => ⟨hs, .filter ht hs hcolumn hc⟩) ?_
  rintro (_ | row) child' e' hrow hs ht he'
  · exact .gave_none ⟨hs, .filter ht hs hcolumn hc, he'⟩
  · obtain ⟨holds, hholds⟩ := Predicate.exists_holds (hrow row rfl) hcolumn
    have htyped := Typed.filter ht hs hcolumn hc
    dsimp only
    rw [hholds]
    cases holds with
    | true => exact .ok ⟨hs, htyped, he'⟩ hrow
    | false => exact (ih htyped he').of_schema hs

theorem gives_typed_loop_none (h : (nestedLoop planned jp left right schema none c).Typed created)
    (he : e.Typed created) :
    (nestedLoop planned jp left right schema none c).GivesTyped created
      ((nestedLoop planned jp left right schema none c).fetch (n + 1) e) := by
  obtain ⟨hleft, hright, hp, -, hc⟩ := h
  rw [fetch]
  refine (GivesTyped.pullWith ih hleft he).andThen
    (fun l hl ht => ⟨rfl, .loop ht hright hl rfl hp (by simp) hc⟩) ?_
  rintro (_ | row) l e' hrow hl ht he'
  · exact .gave_none ⟨rfl, .loop ht hright hl rfl hp hrow hc, he'⟩
  · exact (ih (.loop ht hright hl rfl hp hrow hc) he').of_schema rfl

theorem gives_typed_loop_some {row : Tuple}
    (h : (nestedLoop planned jp left right schema (some row) c).Typed created)
    (he : e.Typed created) :
    (nestedLoop planned jp left right schema (some row) c).GivesTyped created
      ((nestedLoop planned jp left right schema (some row) c).fetch (n + 1) e) := by
  obtain ⟨hleft, hright, hp, hcurrent, hc⟩ := h
  rw [fetch]
  refine (GivesTyped.pullWith ih hright he).andThen
    (fun r hr ht => ⟨rfl, .loop hleft ht rfl hr hp hcurrent hc⟩) ?_
  rintro (_ | other) r e' hother hr ht he'
  · refine (rewind_leaves ht he').andThen
      (fun r' hr' ht' => ⟨rfl, .loop hleft ht' rfl (hr'.trans hr) hp hcurrent hc⟩) ?_
    intro _ r' e'' _ hr' ht' he''
    have htyped : (nestedLoop planned jp left r' schema none c).Typed created :=
      .loop hleft ht' rfl (hr'.trans hr) hp (by simp) hc
    exact (ih htyped he'').of_schema rfl
  · have htyped : (nestedLoop planned jp left r schema (some row) c).Typed created :=
      .loop hleft ht rfl hr hp hcurrent hc
    have hl := hcurrent row rfl
    obtain ⟨holds, hholds⟩ := JoinPredicate.exists_holds hl (hother other rfl) hp.2
    dsimp only
    rw [hholds]
    cases holds with
    | true =>
      refine .ok ⟨rfl, htyped, he'⟩ ?_
      rintro _ ⟨⟩
      show (row.concat other).Typed schema
      rw [hp.1]
      exact hl.concat (hother other rfl)
    | false => exact (ih htyped he').of_schema rfl

theorem gives_typed_hash_none {pending : List Tuple}
    (h : (hashJoin planned jp left right schema none pending c).Typed created)
    (he : e.Typed created) :
    (hashJoin planned jp left right schema none pending c).GivesTyped created
      ((hashJoin planned jp left right schema none pending c).fetch (n + 1) e) := by
  obtain ⟨hleft, hright, hp, -, hpending, hc⟩ := h
  have htake : ∀ {entries : List (Value × Tuple)} {row} (e : Engine),
      (∀ entry ∈ entries, entry.2.Typed left.schema) → row.Typed left.schema →
      ∃ entries', takeKeyed jp.left entries row e = (.ok entries', e) ∧
        ∀ entry ∈ entries', entry.2.Typed left.schema := by
    intro entries row e hentries hrow
    obtain ⟨key, hkey⟩ := hrow.exists_field hp.2.1
    refine ⟨entries ++ [(key, row)], by rw [takeKeyed, hkey]; rfl, ?_⟩
    intro entry hentry
    rcases List.mem_append.1 hentry with hold | hnew
    · exact hentries entry hold
    · rw [List.mem_singleton.1 hnew]
      exact hrow
  rw [fetch]
  refine (Leaves.drain (GivesTyped.pullWith ih) htake rfl hleft he
    (fun _ hentry => absurd hentry List.not_mem_nil) n).andThen
    (fun l hl ht => ⟨rfl, .hash ht hright hl rfl hp (by simp) hpending hc⟩) ?_
  intro entries l e' hentries hl ht he'
  refine (ih (.hash ht hright hl rfl hp ?_ hpending hc) he').of_schema rfl
  rintro _ ⟨⟩
  exact hentries

theorem gives_typed_hash_some {entries : List (Value × Tuple)} {pending : List Tuple}
    (h : (hashJoin planned jp left right schema (some entries) pending c).Typed created)
    (he : e.Typed created) :
    (hashJoin planned jp left right schema (some entries) pending c).GivesTyped created
      ((hashJoin planned jp left right schema (some entries) pending c).fetch (n + 1) e) := by
  obtain ⟨hleft, hright, hp, hentries, hpending, hc⟩ := h
  cases pending with
  | cons row pending =>
    rw [fetch]
    refine .ok ⟨rfl, .hash hleft hright rfl rfl hp hentries (fun other hother =>
      hpending other (List.mem_cons_of_mem _ hother)) hc, he⟩ ?_
    rintro _ ⟨⟩
    exact hpending row (List.mem_cons_self ..)
  | nil =>
    rw [fetch]
    refine (GivesTyped.pullWith ih hright he).andThen
      (fun r hr ht => ⟨rfl, .hash hleft ht rfl hr hp hentries hpending hc⟩) ?_
    rintro (_ | probe) r e' hrow hr ht he'
    · exact .gave_none ⟨rfl, .hash hleft ht rfl hr hp hentries hpending hc, he'⟩
    · obtain ⟨key, hkey⟩ := (hrow probe rfl).exists_field hp.2.2
      dsimp only
      rw [hkey]
      refine (ih (.hash hleft ht rfl hr hp hentries (fun row hfound => ?_) hc) he').of_schema rfl
      obtain ⟨entry, hentry, rfl⟩ := List.mem_map.1 hfound
      rw [hp.1]
      exact (hentries entries rfl entry (List.mem_of_mem_filter hentry)).concat (hrow probe rfl)

theorem gives_typed_aggregate_none
    (h : (aggregate column group fn child schema none c).Typed created)
    (he : e.Typed created) :
    (aggregate column group fn child schema none c).GivesTyped created
      ((aggregate column group fn child schema none c).fetch (n + 1) e) := by
  obtain ⟨hchild, hmade, -, hc⟩ := h
  obtain ⟨a, hnew, ha, htypes⟩ := newAggregator_typed hmade
  have htake : ∀ {b : Aggregator} {row} (e : Engine), b.Typed child.schema ∧ b.schema = a.schema →
      row.Typed child.schema → ∃ b', takeSummary b row e = (.ok b', e) ∧
        b'.Typed child.schema ∧ b'.schema = a.schema := by
    rintro b row e ⟨hb, hsame⟩ hrow
    obtain ⟨b', hmerge, hb', hschema⟩ := hb.merge hrow
    exact ⟨b', by rw [takeSummary, hmerge]; rfl, hb', hschema.trans hsame⟩
  rw [fetch, hnew]
  refine (Leaves.drain (GivesTyped.pullWith ih) htake rfl hchild he ⟨ha, rfl⟩ n).andThen
    (fun child' hs ht => ⟨rfl, .aggregate ht hs hmade (by simp) hc⟩) ?_
  rintro b child' e' ⟨hb, hsame⟩ hs ht he'
  dsimp only
  cases hrows : b.rows with
  | error cause =>
    exact .failed ⟨rfl, .aggregate ht hs hmade (by simp) hc, he'⟩
      (.error (b.rows_wellTyped cause hrows))
  | ok results =>
    refine (ih (.aggregate ht hs hmade ?_ hc) he').of_schema rfl
    rintro _ ⟨⟩ row hrow
    exact (hb.rows hrows row hrow).relabel (by rw [htypes, hsame])

end Pulling

/-- Every pull of a typed operator gives a typed row, or fails for another cause than the types. -/
theorem fetch_givesTyped (n : Nat) (h : op.Typed created) (he : e.Typed created) :
    op.GivesTyped created (op.fetch n e) := by
  induction n generalizing op e with
  | zero => exact .error ⟨rfl, h, he⟩ rfl
  | succ n ih =>
    match op with
    | rows _ _ [] _ => exact .gave_none ⟨rfl, h, he⟩
    | rows _ _ (row :: rest) _ =>
      obtain ⟨hall, hrest, hc⟩ := h
      refine .ok ⟨rfl, ⟨hall, fun other hother => hrest other (List.mem_cons_of_mem _ hother), hc⟩,
        he⟩ ?_
      rintro _ ⟨⟩
      exact hrest row (List.mem_cons_self ..)
    | scan .. => exact gives_typed_scan h he
    | filter .. => exact gives_typed_filter ih h he
    | nestedLoop _ _ _ _ _ none _ => exact gives_typed_loop_none ih h he
    | nestedLoop _ _ _ _ _ (some _) _ => exact gives_typed_loop_some ih h he
    | hashJoin _ _ _ _ _ none _ _ => exact gives_typed_hash_none ih h he
    | hashJoin _ _ _ _ _ (some _) _ _ => exact gives_typed_hash_some ih h he
    | aggregate _ _ _ _ _ none _ => exact gives_typed_aggregate_none ih h he
    | aggregate _ _ _ _ _ (some []) _ => exact .gave_none ⟨rfl, h, he⟩
    | aggregate _ _ _ _ _ (some (row :: results)) _ =>
      obtain ⟨hchild, hmade, hresults, hc⟩ := h
      have hrows := hresults _ rfl
      refine .ok ⟨rfl, ⟨hchild, hmade, ?_, hc⟩, he⟩ ?_
      · rintro _ ⟨⟩
        exact fun other hother => hrows other (List.mem_cons_of_mem _ hother)
      · rintro _ ⟨⟩
        exact hrows row (List.mem_cons_self ..)
    | insert .. => exact h.elim
    | delete .. => exact h.elim

theorem pull_givesTyped (n : Nat) (h : op.Typed created) (he : e.Typed created) :
    op.GivesTyped created (op.pull n e) :=
  GivesTyped.pullWith (fetch_givesTyped n) h he

/-- A row is looked at, and kept. -/
theorem hasNext_leaves (n : Nat) (h : op.Typed created) (he : e.Typed created) :
    op.Leaves created (fun _ => True) (op.hasNext n e) := by
  refine (pull_givesTyped n h he).andThen_id ?_
  intro row op' e' hrow hs ht he'
  refine .ok ⟨(schema_mapCursor _ op').trans hs, ht.mapCursor ?_, he'⟩ trivial
  rw [hs]
  exact hrow

theorem next_leaves (n : Nat) (h : op.Typed created) (he : e.Typed created) :
    op.Leaves created (fun row => row.Typed op.schema) (op.next n e) := by
  refine (pull_givesTyped n h he).andThen_id ?_
  rintro (_ | row) op' e' hrow hs ht he'
  · exact .error ⟨hs, ht, he'⟩ rfl
  · exact .ok ⟨hs, ht, he'⟩ (hrow row rfl)

end Operator

/-! ### Sessions -/

open Operator in
/-- All that can be done with operators that are built of typed rows and of tables. The operators
are those that there have been, in all their states. -/
inductive Session : Engine → List Operator → Prop
  | new (configs : List Config) : Session (.new configs) []
  | happens {e e' : Engine} {ops : List Operator} (h : Session e ops) (hstep : e.Happens e') :
    Session e' ops
  | rows {e : Engine} {ops : List Operator} {schema : Schema} {all : List Tuple}
    (h : Session e ops) (hrows : ∀ row ∈ all, row.Typed schema) :
    Session e (ofRows schema all :: ops)
  | scan {e : Engine} {ops : List Operator} {db : Nat} {tx : TxId} {table : TableId}
    {label : String} {op : Operator} (h : Session e ops)
    (hmade : ofTable e db tx table label = .ok op) : Session e (op :: ops)
  | filter {e : Engine} {ops : List Operator} {p : Predicate} {child : Operator} (h : Session e ops)
    (hchild : child ∈ ops) (hcolumn : p.column < child.schema.arity) :
    Session e (filtered p child :: ops)
  | loop {e : Engine} {ops : List Operator} {p : JoinPredicate} {left right : Operator}
    (h : Session e ops) (hleft : left ∈ ops) (hright : right ∈ ops)
    (hcolumns : p.InRange left.schema right.schema) : Session e (looped p left right :: ops)
  | hash {e : Engine} {ops : List Operator} {p : JoinPredicate} {left right : Operator}
    (h : Session e ops) (hleft : left ∈ ops) (hright : right ∈ ops)
    (hcolumns : p.InRange left.schema right.schema) : Session e (hashed p left right :: ops)
  | join {e : Engine} {ops : List Operator} {p : JoinPredicate} {left right : Operator}
    (h : Session e ops) (hleft : left ∈ ops) (hright : right ∈ ops)
    (hcolumns : p.InRange left.schema right.schema) : Session e (join p left right :: ops)
  | aggregate {e : Engine} {ops : List Operator} {column : Nat} {group : Option Nat}
    {fn : AggregateFunction} {child op : Operator} (h : Session e ops) (hchild : child ∈ ops)
    (hmade : aggregated child column group fn = .ok op) : Session e (op :: ops)
  | node {e : Engine} {ops : List Operator} {op child : Operator} (h : Session e ops)
    (hop : op ∈ ops) (hchild : child ∈ op.children) : Session e (child :: ops)
  | start {e : Engine} {ops : List Operator} {op : Operator} (h : Session e ops) (hop : op ∈ ops) :
    Session (op.start e).2.2 ((op.start e).2.1 :: ops)
  | close {e : Engine} {ops : List Operator} {op : Operator} (h : Session e ops) (hop : op ∈ ops) :
    Session e (op.close :: ops)
  | rewind {e : Engine} {ops : List Operator} {op : Operator} (h : Session e ops)
    (hop : op ∈ ops) : Session (op.rewind e).2.2 ((op.rewind e).2.1 :: ops)
  | hasNext {e : Engine} {ops : List Operator} {op : Operator} (h : Session e ops) (hop : op ∈ ops)
    (n : Nat) : Session (op.hasNext n e).2.2 ((op.hasNext n e).2.1 :: ops)
  | next {e : Engine} {ops : List Operator} {op : Operator} (h : Session e ops) (hop : op ∈ ops)
    (n : Nat) : Session (op.next n e).2.2 ((op.next n e).2.1 :: ops)

namespace Session

open Operator

variable {e : Engine} {ops : List Operator} {op : Operator}

/-- In a session the databases and all operators are typed. -/
theorem typed (h : Session e ops) :
    ∃ created, e.Typed created ∧ ∀ op ∈ ops, op.Typed created := by
  -- whatever a step adds to the operators, the others are as they were
  have hadd : ∀ {e' : Engine} {ops : List Operator} {op : Operator} {created},
      (∀ op ∈ ops, op.Typed created) → op.Typed created → e'.Typed created →
      ∃ created, e'.Typed created ∧ ∀ other ∈ op :: ops, other.Typed created :=
    fun hops hop he => ⟨_, he, List.forall_mem_cons.2 ⟨hop, hops⟩⟩
  have hcall : ∀ {α : Type} {ops : List Operator} {op : Operator} {created} {P : α → Prop}
      {o : Pulled α}, (∀ op ∈ ops, op.Typed created) → op.Leaves created P o →
      ∃ created, o.2.2.Typed created ∧ ∀ other ∈ o.2.1 :: ops, other.Typed created :=
    fun hops ho => hadd hops ho.stays.typed ho.stays.engine
  induction h with
  | new configs => exact ⟨_, Engine.typed_new configs, nofun⟩
  | happens h hstep ih =>
    obtain ⟨created, he, hops⟩ := ih
    obtain ⟨created', he', hextends⟩ := he.happens hstep
    exact ⟨created', he', fun op hop => (hops op hop).extend hextends⟩
  | rows h hrows ih =>
    obtain ⟨created, he, hops⟩ := ih
    exact hadd hops ⟨hrows, hrows, nofun⟩ he
  | @scan e ops db tx table label op h hmade ih =>
    obtain ⟨created, he, hops⟩ := ih
    obtain ⟨f, hf, hmade⟩ := bind_eq_ok_iff.1 hmade
    cases hmade
    have hfile := (he db).file hf
    obtain rfl := Catalog.table_of_file hf
    refine hadd hops ⟨⟨?_, nofun⟩, nofun⟩ he
    rw [Schema.types_qualified]
    exact hfile
  | filter h hchild hcolumn ih =>
    obtain ⟨created, he, hops⟩ := ih
    exact hadd hops ⟨hops _ hchild, hcolumn, nofun⟩ he
  | loop h hleft hright hcolumns ih =>
    obtain ⟨created, he, hops⟩ := ih
    exact hadd hops ⟨hops _ hleft, hops _ hright, ⟨rfl, hcolumns⟩, nofun, nofun⟩ he
  | hash h hleft hright hcolumns ih =>
    obtain ⟨created, he, hops⟩ := ih
    exact hadd hops ⟨hops _ hleft, hops _ hright, ⟨rfl, hcolumns⟩, nofun, nofun, nofun⟩ he
  | join h hleft hright hcolumns ih =>
    obtain ⟨created, he, hops⟩ := ih
    refine hadd hops ?_ he
    unfold Operator.join
    dsimp only
    split_ifs
    · exact ⟨hops _ hleft, hops _ hright, ⟨rfl, hcolumns⟩, nofun, nofun, nofun⟩
    · exact ⟨hops _ hleft, hops _ hright, ⟨rfl, hcolumns⟩, nofun, nofun⟩
  | aggregate h hchild hmade ih =>
    obtain ⟨created, he, hops⟩ := ih
    obtain ⟨schema, hschema, hmade⟩ := bind_eq_ok_iff.1 hmade
    cases hmade
    exact hadd hops ⟨hops _ hchild, hschema, nofun, nofun⟩ he
  | node h hop hchild ih =>
    obtain ⟨created, he, hops⟩ := ih
    exact hadd hops ((hops _ hop).of_mem_children hchild) he
  | start h hop ih =>
    obtain ⟨created, he, hops⟩ := ih
    exact hcall hops (start_leaves (hops _ hop) he)
  | close h hop ih =>
    obtain ⟨created, he, hops⟩ := ih
    exact hadd hops (hops _ hop).close he
  | rewind h hop ih =>
    obtain ⟨created, he, hops⟩ := ih
    exact hcall hops (rewind_leaves (hops _ hop) he)
  | hasNext h hop n ih =>
    obtain ⟨created, he, hops⟩ := ih
    exact hcall hops (hasNext_leaves n (hops _ hop) he)
  | next h hop n ih =>
    obtain ⟨created, he, hops⟩ := ih
    exact hcall hops (next_leaves n (hops _ hop) he)

/-- **Rows are typed**, to whoever calls an operator, and no call fails for want of a column, of a
value or of the right type. -/
theorem rows_typed (h : Session e ops) (hop : op ∈ ops) (n : Nat) :
    (∀ {row s}, op.pull n e = (.ok (some row), s) → row.Typed op.schema) ∧
    (∀ {row s}, op.next n e = (.ok row, s) → row.Typed op.schema) ∧
    (op.pull n e).2.1.schema = op.schema ∧
    WellTyped (op.start e).1 ∧ WellTyped (op.rewind e).1 ∧ WellTyped (op.hasNext n e).1 ∧
    WellTyped (op.next n e).1 := by
  obtain ⟨created, he, hops⟩ := h.typed
  have htyped := hops op hop
  have hpull := pull_givesTyped n htyped he
  have hnext := next_leaves n htyped he
  refine ⟨fun {row s} hrow => ?_, fun {row s} hrow => ?_, hpull.stays.schema_eq,
    (start_leaves htyped he).fails, (rewind_leaves htyped he).fails,
    (hasNext_leaves n htyped he).fails, hnext.fails⟩
  · exact hpull.value (congrArg Prod.fst hrow) row rfl
  · exact hnext.value (congrArg Prod.fst hrow)

/-- The join of the numbers with their counts gives a first row, and it is typed. -/
theorem loopOverCounts_typed :
    let first := (loopOverCounts.start someNumbers).2
    ∃ ops row, Session first.2 (first.1 :: ops) ∧ (first.1.next 20 first.2).1 = .ok row ∧
      row.Typed loopOverCounts.schema ∧ WellTyped (first.1.rewind first.2).1 := by
  intro first
  have hfiles : Session { Engine.new [⟨5, 3⟩] with disk := someNumbers.disk } [] :=
    .happens (.new [⟨5, 3⟩]) (.files someNumbers.disk)
  have hcreate : ({ Engine.new [⟨5, 3⟩] with disk := someNumbers.disk }.store 0).createTable
      "rows" "rows" Store.numbers = .ok (Store.only, someNumbers.store 0) := by cbv
  have hnumbers : Session someNumbers [] := .happens hfiles (.create (by decide) (by decide) hcreate)
  have hrows : ∀ row ∈ [Store.number 8, Store.number 2, Store.number 7],
      row.Typed Store.numbers := by decide
  have hjoin := (hnumbers.scan (show ofTable someNumbers 0 ⟨1⟩ Store.only "n" = .ok scanNumbers
    from rfl)).rows hrows
  have hcount := ((hjoin.hash (.tail _ (.head _)) (.head _)
    (show JoinPredicate.InRange ⟨0, .equal, 0⟩ _ _ by decide)).filter (.tail _ (.tail _ (.head _)))
    (show (⟨0, .greater, .int 0⟩ : Predicate).column < _ by decide)).aggregate (.head _)
    (show aggregated _ 0 (some 0) .count = .ok countNumbers from rfl)
  have hloop := hcount.loop (.tail _ (.tail _ (.head _))) (.head _)
    (show JoinPredicate.InRange ⟨0, .greaterEq, 0⟩ _ _ by decide)
  have hfirst := hloop.start (.head _)
  have hnext : (first.1.next 20 first.2).1.toOption.isSome := by decide +kernel
  obtain ⟨row, hrow⟩ := exists_eq_ok hnext
  obtain ⟨-, htyped, -, -, hrewind, -⟩ := rows_typed hfirst (.head _) 20
  exact ⟨_, row, hfirst, hrow, htyped (Prod.ext hrow rfl), hrewind⟩

end Session

end Rowstore
