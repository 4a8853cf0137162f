import Mathlib
import Rowstore.Aggregator

/-!
# Tables of groups

Groups are found by their keys in a map and kept in a list, in the order in which they were first
seen: the map says at which place of the list the group of a key is. Map and list have to stay in
step, `GroupTable.InStep`. A value is taken into its group in two moves, which is found or made
first and then changed in its place; both keep the table in step, and together they do to the list
what `Aggregator.addTo` does, `GroupTable.Shows.take`.
-/

namespace Rowstore

/-- Groups by their keys: the place of each of them, and the groups in their order. -/
structure GroupTable (α : Type) where
  places : Finmap fun _ : Option Value => Nat
  groups : List (Option Value × α)

namespace GroupTable

variable {α : Type} {t u : GroupTable α} {key : Option Value} {place : Nat} {a b init : α}

/-- A table without groups. -/
def empty : GroupTable α := ⟨∅, []⟩

/-- The place of a group, and whether the group is new. A key that was not seen before gets a group
behind all others. -/
def entry (t : GroupTable α) (key : Option Value) (init : α) : (Nat × Bool) × GroupTable α :=
  match t.places.lookup key with
  | some place => ((place, false), t)
  | none => ((t.groups.length, true),
      ⟨t.places.insert key t.groups.length, t.groups ++ [(key, init)]⟩)

/-- Change the group in a place. This stops where there is no group, or where the change does. -/
def change (t : GroupTable α) (place : Nat) (f : α → Option α) : Option (GroupTable α) := do
  let (key, a) ← t.groups[place]?
  let a ← f a
  return { t with groups := t.groups.set place (key, a) }

/-- Find or make a group, and change it. The change is told whether the group is new. -/
def take (t : GroupTable α) (key : Option Value) (init : α) (f : Bool → α → Option α) :
    Option (GroupTable α) :=
  let ((place, isNew), t) := t.entry key init
  t.change place (f isNew)

/-- The map has the place of each group, and nothing else. -/
def InStep (t : GroupTable α) : Prop :=
  ∀ (key : Option Value) (place : Nat),
    t.places.lookup key = some place ↔ (t.groups.map Prod.fst)[place]? = some key

theorem inStep_empty : (empty : GroupTable α).InStep := fun key place => by simp [empty]

/-- No two groups have the same key. -/
theorem InStep.nodup (h : t.InStep) : (t.groups.map Prod.fst).Nodup := by
  rw [List.nodup_iff_injective_getElem]
  intro i j hij
  have hi := (h _ i).2 (List.getElem?_eq_getElem i.2)
  have hj := (h _ j).2 (List.getElem?_eq_getElem j.2)
  simp only at hij
  rw [hij, hj] at hi
  exact Fin.ext (Option.some.inj hi).symm

/-- A key that is not in the map has no group. -/
theorem InStep.lookup_eq_none (h : t.InStep) :
    t.places.lookup key = none ↔ key ∉ t.groups.map Prod.fst := by
  rw [← not_iff_not, not_not, ← ne_eq, Option.ne_none_iff_exists', List.mem_iff_getElem?]
  exact exists_congr fun place => h key place

/-- A key that is in the map has a group. -/
theorem InStep.exists_group (h : t.InStep) (hplace : t.places.lookup key = some place) :
    ∃ a, t.groups[place]? = some (key, a) := by
  have hkey := (h key place).1 hplace
  rw [List.getElem?_map] at hkey
  obtain ⟨⟨other, a⟩, hgroup, rfl⟩ := Option.map_eq_some_iff.1 hkey
  exact ⟨a, hgroup⟩

/-- A group is made behind all others. -/
theorem InStep.add (h : t.InStep) (hnew : key ∉ t.groups.map Prod.fst) (a : α) :
    InStep ⟨t.places.insert key t.groups.length, t.groups ++ [(key, a)]⟩ := by
  intro other place
  rw [List.map_append, List.map_singleton]
  rcases lt_trichotomy place t.groups.length with hlt | rfl | hlt
  · rw [List.getElem?_append_left (by simpa using hlt), ← h other place]
    by_cases hother : other = key
    · subst hother
      rw [Finmap.lookup_insert, h.lookup_eq_none.2 hnew]
      simp only [Option.some.injEq, reduceCtorEq, iff_false]
      omega
    · rw [Finmap.lookup_insert_of_ne _ hother]
  · rw [List.getElem?_append_right (by simp)]
    by_cases hother : other = key
    · subst hother
      simp
    · rw [Finmap.lookup_insert_of_ne _ hother, h other]
      simp [Ne.symm hother]
  · rw [List.getElem?_eq_none (by simp; omega)]
    by_cases hother : other = key
    · subst hother
      rw [Finmap.lookup_insert]
      simp only [Option.some.injEq, reduceCtorEq, iff_false]
      omega
    · rw [Finmap.lookup_insert_of_ne _ hother, h other, List.getElem?_eq_none (by simp; omega)]

/-- A group is changed in its place. -/
theorem InStep.set (h : t.InStep) (hgroup : t.groups[place]? = some (key, a)) (b : α) :
    InStep { t with groups := t.groups.set place (key, b) } := by
  have hkeys : (t.groups.set place (key, b)).map Prod.fst = t.groups.map Prod.fst := by
    rw [List.map_set]
    refine List.ext_getElem? fun i => ?_
    rw [List.getElem?_set]
    split_ifs with hi hlt
    · subst hi
      rw [List.getElem?_map, hgroup]
      rfl
    · rw [List.getElem?_eq_none (by omega)]
    · rfl
  intro other i
  rw [hkeys]
  exact h other i

/-- A value of a new key is taken into a group of its own. -/
theorem InStep.take_new (h : t.InStep) (hnew : key ∉ t.groups.map Prod.fst)
    (f : Bool → α → Option α) : t.take key init f = (f true init).map fun a =>
      ⟨t.places.insert key t.groups.length, t.groups ++ [(key, a)]⟩ := by
  unfold take entry
  rw [h.lookup_eq_none.2 hnew]
  simp only [change, List.getElem?_concat_length, Option.bind_eq_bind, Option.bind_some]
  cases f true init with
  | none => rfl
  | some a => simp

/-- A value of a key that was seen is taken into the group of the key. -/
theorem take_old (hplace : t.places.lookup key = some place)
    (hgroup : t.groups[place]? = some (key, a)) (f : Bool → α → Option α) :
    t.take key init f = (f false a).map fun b =>
      { t with groups := t.groups.set place (key, b) } := by
  unfold take entry
  rw [hplace]
  simp only [change, hgroup, Option.bind_eq_bind, Option.bind_some]
  cases f false a <;> rfl

end GroupTable

/-! ### Taking values in, group by group -/

namespace Aggregator

variable {fn : AggregateFunction} {key : Option Value} {n : Int} {acc : Accumulator}
  {groups : List (Option Value × Accumulator)}

theorem addTo_of_notMem (h : key ∉ groups.map Prod.fst) :
    addTo fn key n groups = groups ++ [(key, ⟨n, 1⟩)] := by
  induction groups with
  | nil => rfl
  | cons group groups ih =>
    simp only [List.map_cons, List.mem_cons, not_or] at h
    rw [addTo, if_neg (Ne.symm h.1), ih h.2]
    rfl

/-- A value is taken in where the group is, if no other has the key. -/
theorem addTo_of_getElem? (hnodup : (groups.map Prod.fst).Nodup) {place : Nat}
    (h : groups[place]? = some (key, acc)) :
    addTo fn key n groups = groups.set place (key, acc.add fn n) := by
  induction groups generalizing place with
  | nil => cases h
  | cons group groups ih =>
    rw [List.map_cons, List.nodup_cons] at hnodup
    cases place with
    | zero =>
      cases h
      rw [addTo, if_pos rfl]
      rfl
    | succ place =>
      rw [List.getElem?_cons_succ] at h
      have hne : group.1 ≠ key := fun hkey =>
        hnodup.1 (List.mem_map.2 ⟨_, List.mem_of_getElem? h, hkey.symm⟩)
      rw [addTo, if_neg hne, ih hnodup.2 h]
      rfl

end Aggregator

namespace GroupTable

variable {α : Type} {t u : GroupTable α} {view : α → Accumulator → Prop}
  {groups : List (Option Value × Accumulator)} {fn : AggregateFunction} {key : Option Value}
  {n : Int} {init : α} {f : Bool → α → Option α}

/-- Both lists are changed in one place. -/
theorem forall₂_set {β γ : Type} {R : β → γ → Prop} {bs : List β} {cs : List γ}
    (h : List.Forall₂ R bs cs) {b : β} {c : γ} (hbc : R b c) (place : Nat) :
    List.Forall₂ R (bs.set place b) (cs.set place c) := by
  induction h generalizing place with
  | nil => exact .nil
  | cons hhead htail ih =>
    cases place with
    | zero => exact .cons hbc htail
    | succ place => exact .cons hhead (ih place)

/-- What is kept of a group says of it what an accumulator says. -/
def Matches (view : α → Accumulator → Prop) (g : Option Value × α)
    (g' : Option Value × Accumulator) : Prop := g.1 = g'.1 ∧ view g.2 g'.2

/-- A table is in step, and shows some groups in their order. -/
structure Shows (t : GroupTable α) (view : α → Accumulator → Prop)
    (groups : List (Option Value × Accumulator)) : Prop where
  inStep : t.InStep
  shown : List.Forall₂ (Matches view) t.groups groups

theorem shows_empty : (empty : GroupTable α).Shows view [] := ⟨inStep_empty, .nil⟩

theorem Shows.keys_eq (h : t.Shows view groups) : t.groups.map Prod.fst = groups.map Prod.fst := by
  refine List.forall₂_eq_eq_eq ▸ ?_
  rw [List.forall₂_map_left_iff, List.forall₂_map_right_iff]
  exact h.shown.imp fun g g' => And.left

theorem Shows.isEmpty_eq (h : t.Shows view groups) : t.groups.isEmpty = groups.isEmpty := by
  rw [Bool.eq_iff_iff, List.isEmpty_iff_length_eq_zero, List.isEmpty_iff_length_eq_zero,
    h.shown.length_eq]

/-- The group in a place is shown in that place. -/
theorem Shows.exists_acc (h : t.Shows view groups) {place : Nat} {a : α}
    (hgroup : t.groups[place]? = some (key, a)) :
    ∃ acc, groups[place]? = some (key, acc) ∧ view a acc := by
  obtain ⟨hlt, ha⟩ := List.getElem?_eq_some_iff.1 hgroup
  have hlt' : place < groups.length := h.shown.length_eq ▸ hlt
  obtain ⟨hkey, hview⟩ := h.shown.get hlt hlt'
  simp only [List.get_eq_getElem, ha] at hkey hview
  refine ⟨groups[place].2, ?_, hview⟩
  rw [List.getElem?_eq_getElem hlt', hkey]

/-- A value that is taken in is shown in its group. -/
theorem Shows.take (h : t.Shows view groups) (htake : t.take key init f = some u)
    (hinit : ∀ a, f true init = some a → view a ⟨n, 1⟩)
    (hchange : ∀ a acc b, view a acc → f false a = some b → view b (acc.add fn n)) :
    u.Shows view (Aggregator.addTo fn key n groups) := by
  cases hplace : t.places.lookup key with
  | none =>
    have hnew := h.inStep.lookup_eq_none.1 hplace
    rw [h.inStep.take_new hnew] at htake
    obtain ⟨a, ha, rfl⟩ := Option.map_eq_some_iff.1 htake
    refine ⟨h.inStep.add hnew a, ?_⟩
    rw [Aggregator.addTo_of_notMem (h.keys_eq ▸ hnew)]
    exact List.rel_append h.shown (.cons ⟨rfl, hinit a ha⟩ .nil)
  | some place =>
    obtain ⟨a, hgroup⟩ := h.inStep.exists_group hplace
    rw [take_old hplace hgroup] at htake
    obtain ⟨b, hb, rfl⟩ := Option.map_eq_some_iff.1 htake
    obtain ⟨acc, hacc, hview⟩ := h.exists_acc hgroup
    refine ⟨h.inStep.set hgroup b, ?_⟩
    rw [Aggregator.addTo_of_getElem? (h.keys_eq ▸ h.inStep.nodup) hacc]
    exact forall₂_set h.shown ⟨rfl, hchange a acc b hview hb⟩ place

/-- A value is taken in unless the change of a group stops. -/
theorem Shows.take_isSome (h : t.Shows view groups) (key : Option Value) (hinit : (f true init).isSome)
    (hchange : ∀ a acc, (key, acc) ∈ groups → view a acc → (f false a).isSome) :
    (t.take key init f).isSome := by
  cases hplace : t.places.lookup key with
  | none =>
    rw [h.inStep.take_new (h.inStep.lookup_eq_none.1 hplace), Option.isSome_map]
    exact hinit
  | some place =>
    obtain ⟨a, hgroup⟩ := h.inStep.exists_group hplace
    obtain ⟨acc, hacc, hview⟩ := h.exists_acc hgroup
    rw [take_old hplace hgroup, Option.isSome_map]
    exact hchange a acc (List.mem_of_getElem? hacc) hview

end GroupTable

end Rowstore
