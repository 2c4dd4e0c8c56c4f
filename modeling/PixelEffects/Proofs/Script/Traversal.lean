import PixelEffects.Proofs.Script.Built

/-!
# Traversals

What a loop over the entries of a table comes to, while its body changes the table.

The loop keeps nothing but the last key. Each round asks the table, as it is by then, for the first
entry after that key, and is refused if the key is not there any more. Between two rounds the body
may have done anything to the table.

So what is known of a traversal is known round by round. A *visit* is a round that came to an entry,
with the table before the body was run and the one after it. As the next key is after the last one,
whatever became of the table, the keys of the visits ascend. And a round passes over no entry that is
between the two keys at that moment. Hence there is one moment for each key at which it is decided
whether it will be visited: when it is its turn, which is before the first visit that is not at a
smaller key, or at the end of the loop if there is none.

A traversal also says how it ended. It is *exhausted* if there was no entry left, and *refused* if
the last key was lost. In all other cases it was *left* by its body, or by a limit.

## Main definitions

* `Key.IsAfter`: The keys that are still to come.
* `Visit`, `Ending`: What a traversal has come to, and how it ended.
* `visitBody`: A round that has come to an entry.
* `Traversal`: The run of a loop over a table, round by round.
* `turn`: The table when it is the turn of a key.

## Theorems

* `Traversal.ascending`: The keys of the visits ascend.
* `Traversal.entry`: What is visited is an entry at that moment.
* `Traversal.kept`: The last key is there whenever a traversal goes on.
* `Traversal.visited_iff`: What is visited by a traversal that is exhausted.
-/

namespace PixelEffects

namespace Script

/-! ## The order of keys -/

namespace Key

theorem not_lt_self (k : Key) : compare k k ≠ .lt := by
  rw [Std.ReflOrd.compare_self]
  exact nofun

theorem not_lt_of_lt {j k : Key} (h : compare j k = .lt) : compare k j ≠ .lt :=
  fun hback => not_lt_self j (Std.TransCmp.lt_trans h hback)

theorem ne_of_lt {j k : Key} (h : compare j k = .lt) : j ≠ k := by
  rintro rfl
  exact not_lt_self j h

/-- The keys that are still to come after a key, all of them if there is none. -/
def IsAfter (after : Option Key) (k : Key) : Prop :=
  ∀ j ∈ after, compare j k = .lt

theorem isAfter_none (k : Key) : k.IsAfter none :=
  fun j hj => (Option.not_mem_none j hj).elim

theorem isAfter_some {j k : Key} : k.IsAfter (some j) ↔ compare j k = .lt := by
  unfold IsAfter
  simp only [Option.mem_def, Option.some.injEq, forall_eq']

theorem IsAfter.of_lt {after : Option Key} {j k : Key} (h : j.IsAfter after)
    (hjk : compare j k = .lt) : k.IsAfter after :=
  fun i hi => Std.TransCmp.lt_trans (h i hi) hjk

end Key

namespace Table

variable {t : Table} {after : Option Key} {k : Key} {v : Value}

theorem isAfter_of_next? (h : t.next? after = some (k, v)) : k.IsAfter after := by
  rw [next?_eq_find?] at h
  have hall := List.find?_some h
  intro j hj
  rw [Option.mem_def.mp hj] at hall
  exact beq_iff_eq.mp hall

theorem exists_mem_of_contains (h : t.contains k = true) : ∃ v, (k, v) ∈ t.toList := by
  rw [contains, Std.TreeMap.contains_eq_isSome_getElem?] at h
  rcases Option.isSome_iff_exists.mp h with ⟨v, hv⟩
  exact ⟨v, Std.TreeMap.mem_toList_iff_getElem?_eq_some.mpr hv⟩

theorem all_of_isAfter {j : Key} (h : j.IsAfter after) :
    (after.all fun i => compare i j == .lt) = true := by
  cases after with
  | none => rfl
  | some i => exact beq_iff_eq.mpr (h i rfl)

/-- No entry that is still to come is passed over. -/
theorem not_contains_of_lt_next? (h : t.next? after = some (k, v)) {j : Key} (hj : j.IsAfter after)
    (hjk : compare j k = .lt) : t.contains j = false := by
  rw [Bool.eq_false_iff]
  intro hcontains
  rcases exists_mem_of_contains hcontains with ⟨w, hmem⟩
  rw [next?_eq_find?, List.find?_eq_some_iff_append] at h
  rcases h with ⟨_, before, rest, hlist, hbefore⟩
  have hascending : (before ++ (k, v) :: rest).Pairwise fun a b => compare a.1 b.1 = .lt :=
    hlist ▸ Std.TreeMap.ordered_keys_toList
  rw [hlist, List.mem_append, List.mem_cons] at hmem
  rcases hmem with hmem | heq | hmem
  · have hskipped := hbefore _ hmem
    rw [all_of_isAfter hj] at hskipped
    cases hskipped
  · cases heq
    exact Key.not_lt_self _ hjk
  · have hlater := List.rel_of_pairwise_cons (List.pairwise_append.mp hascending).2.1 hmem
    exact Key.not_lt_of_lt hlater hjk

/-- Nothing is still to come when there is no next entry. -/
theorem not_contains_of_next? (h : t.next? after = none) {j : Key} (hj : j.IsAfter after) :
    t.contains j = false := by
  rw [Bool.eq_false_iff]
  intro hcontains
  rcases exists_mem_of_contains hcontains with ⟨w, hmem⟩
  rw [next?_eq_find?, List.find?_eq_none] at h
  exact h _ hmem (all_of_isAfter hj)

end Table

/-! ## Visits -/

/-- A round that came to an entry: its key and its value, and the table before the body of the loop
    was run and after it. -/
structure Visit where
  key : Key
  value : Value
  before : Table
  after : Table

/-- How a traversal ended. -/
inductive Ending
  | exhausted
  | refused
  | left
deriving DecidableEq

variable {ν : Type}

/-- The part of a round that comes after the search: the body is run with the entry, and the next
    search begins at its key. -/
def visitBody (body : List Value → Eval ν Flow) (k : Key) (v : Value) :
    Eval ν (Turn Value Flow) := do
  afterBody (do
    tick
    pure k.toValue) (← body [k.toValue, v])

/-- The run of a loop over the table at a place, in a setting and on a line: from what there is left
    of the fuel, the last key and the machine to the visits, the ending and the result. -/
inductive Traversal (s : Setting) (id : TableId) (line : Nat) (body : List Value → Eval ν Flow) :
    Nat → Option Key → Machine ν → List Visit → Ending → EStateM.Result Fault (Machine ν) Flow →
      Prop
  | cut {after : Option Key} {m : Machine ν} :
      Traversal s id line body 0 after m [] .left (fault .outOfFuel s m)
  | exhausted {fuel : Nat} {after : Option Key} {m : Machine ν}
      (hlast : ∀ k ∈ after, (m.tables.table id).contains k = true)
      (hnext : (m.tables.table id).next? after = none) :
      Traversal s id line body (fuel + 1) after m [] .exhausted
        (.ok .normal { m with line := line })
  | refused {fuel : Nat} {k : Key} {m : Machine ν}
      (hlost : (m.tables.table id).contains k = false) :
      Traversal s id line body (fuel + 1) (some k) m [] .refused
        (fault (.library .lostKey) s { m with line := line })
  | failed {fuel : Nat} {after : Option Key} {m m' : Machine ν} {k : Key} {v : Value} {f : Fault}
      (hlast : ∀ k ∈ after, (m.tables.table id).contains k = true)
      (hnext : (m.tables.table id).next? after = some (k, v))
      (hbody : visitBody body k v s { m with line := line } = .error f m') :
      Traversal s id line body (fuel + 1) after m
        [⟨k, v, m.tables.table id, m'.tables.table id⟩] .left (.error f m')
  | left {fuel : Nat} {after : Option Key} {m m' : Machine ν} {k : Key} {v : Value} {flow : Flow}
      (hlast : ∀ k ∈ after, (m.tables.table id).contains k = true)
      (hnext : (m.tables.table id).next? after = some (k, v))
      (hbody : visitBody body k v s { m with line := line } = .ok (.done flow) m') :
      Traversal s id line body (fuel + 1) after m
        [⟨k, v, m.tables.table id, m'.tables.table id⟩] .left (.ok flow m')
  | again {fuel : Nat} {after : Option Key} {m m' : Machine ν} {k : Key} {v : Value}
      {visits : List Visit} {ending : Ending} {r : EStateM.Result Fault (Machine ν) Flow}
      (hlast : ∀ k ∈ after, (m.tables.table id).contains k = true)
      (hnext : (m.tables.table id).next? after = some (k, v))
      (hbody : visitBody body k v s { m with line := line } = .ok (.again k.toValue) m')
      (hrest : Traversal s id line body fuel (some k) (m'.note (.progress .round)) visits ending r) :
      Traversal s id line body (fuel + 1) after m
        (⟨k, v, m.tables.table id, m'.tables.table id⟩ :: visits) ending r

/-- The table when it is the turn of a key: before the first visit that is not at a smaller key, and
    at the end if there is none. -/
def turn (final : Table) (k : Key) : List Visit → Table
  | [] => final
  | v :: visits => if compare v.key k = .lt then turn final k visits else v.before

theorem turn_contains {final : Table} {k : Key} {visits : List Visit}
    (hvisits : ∀ v ∈ visits, v.before.contains k = true) (hfinal : final.contains k = true) :
    (turn final k visits).contains k = true := by
  induction visits with
  | nil => exact hfinal
  | cons v visits ih =>
      rw [turn]
      split
      · exact ih fun w hw => hvisits w (List.mem_cons_of_mem v hw)
      · exact hvisits v List.mem_cons_self

namespace Traversal

variable {s : Setting} {id : TableId} {line : Nat} {body : List Value → Eval ν Flow} {fuel : Nat}
  {after : Option Key} {m : Machine ν} {visits : List Visit} {ending : Ending}
  {r : EStateM.Result Fault (Machine ν) Flow}

/-- All visits are at keys that were still to come. -/
theorem isAfter (h : Traversal s id line body fuel after m visits ending r) :
    ∀ v ∈ visits, v.key.IsAfter after := by
  induction h with
  | cut | exhausted | refused => exact List.forall_mem_nil _
  | failed _ hnext | left _ hnext =>
      intro v hv
      rw [List.mem_singleton.mp hv]
      exact Table.isAfter_of_next? hnext
  | again _ hnext _ _ ih =>
      have hkey := Table.isAfter_of_next? hnext
      intro v hv
      rcases List.mem_cons.mp hv with rfl | hv
      · exact hkey
      · exact hkey.of_lt (Key.isAfter_some.mp (ih v hv))

/-- The keys of the visits ascend. -/
theorem ascending (h : Traversal s id line body fuel after m visits ending r) :
    visits.Pairwise fun v w => compare v.key w.key = .lt := by
  induction h with
  | cut | exhausted | refused => exact .nil
  | failed | left => exact List.pairwise_singleton _ _
  | again _ _ _ hrest ih =>
      exact List.pairwise_cons.mpr ⟨fun v hv => Key.isAfter_some.mp (hrest.isAfter v hv), ih⟩

/-- What is visited is an entry of the table at that moment. -/
theorem entry (h : Traversal s id line body fuel after m visits ending r) :
    ∀ v ∈ visits, v.before.contains v.key = true ∧ v.before.get v.key = v.value := by
  induction h with
  | cut | exhausted | refused => exact List.forall_mem_nil _
  | failed _ hnext | left _ hnext =>
      intro v hv
      rw [List.mem_singleton.mp hv]
      exact (Table.get_of_next? hnext).symm
  | again _ hnext _ _ ih =>
      intro v hv
      rcases List.mem_cons.mp hv with rfl | hv
      · exact (Table.get_of_next? hnext).symm
      · exact ih v hv

/-- Where a traversal goes on, or finds that there is nothing left, the last key is there. -/
theorem holds (h : Traversal s id line body fuel after m visits ending r)
    (hgoes : visits ≠ [] ∨ ending = .exhausted) :
    ∀ k ∈ after, (m.tables.table id).contains k = true := by
  cases h with
  | cut | refused => simp at hgoes
  | exhausted hlast | failed hlast | left hlast | again hlast => exact hlast

/-- The key of every visit but the last is there after its body was run, and that of the last one
    as well if there is nothing left then. -/
theorem kept (h : Traversal s id line body fuel after m visits ending r) :
    (∀ v ∈ visits.dropLast, v.after.contains v.key = true) ∧
      (ending = .exhausted → ∀ v ∈ visits, v.after.contains v.key = true) := by
  induction h with
  | cut | exhausted | refused => exact ⟨List.forall_mem_nil _, fun _ => List.forall_mem_nil _⟩
  | failed | left =>
      rw [List.dropLast_singleton]
      exact ⟨List.forall_mem_nil _, fun hending => nomatch hending⟩
  | @again _ _ _ m' k v visits _ _ _ _ _ hrest ih =>
      have hkey : visits ≠ [] ∨ _ → (m'.tables.table id).contains k = true := fun hgoes =>
        Builds.tables_note m' _ ▸ hrest.holds hgoes k rfl
      refine ⟨fun w hw => ?_, fun hending w hw => ?_⟩
      · cases visits with
        | nil => cases hw
        | cons next visits =>
            rcases List.mem_cons.mp hw with rfl | hw
            · exact hkey (.inl nofun)
            · exact ih.1 w hw
      · rcases List.mem_cons.mp hw with rfl | hw
        · exact hkey (.inr hending)
        · exact ih.2 hending w hw

/-- A traversal is refused when the key of its last visit is lost. -/
theorem lost (h : Traversal s id line body fuel after m visits ending r)
    (hending : ending = .refused) :
    (visits = [] → ∃ k ∈ after, (m.tables.table id).contains k = false) ∧
      ∀ v ∈ visits.getLast?, v.after.contains v.key = false := by
  induction h with
  | cut | exhausted | failed | left => cases hending
  | refused hlost => exact ⟨fun _ => ⟨_, rfl, hlost⟩, fun v hv => (Option.not_mem_none v hv).elim⟩
  | @again _ _ _ m' k v visits _ _ _ _ _ _ ih =>
      rcases ih hending with ⟨hfirst, hlast⟩
      refine ⟨nofun, fun w hw => ?_⟩
      cases visits with
      | nil =>
          rcases hfirst rfl with ⟨j, hj, hlost⟩
          rw [Builds.tables_note] at hlost
          cases Option.mem_def.mp hj
          cases Option.mem_def.mp hw
          exact hlost
      | cons next visits => exact hlast w hw

theorem lost_last (h : Traversal s id line body fuel none m visits ending r)
    (hending : ending = .refused) : ∃ v ∈ visits.getLast?, v.after.contains v.key = false := by
  rcases h.lost hending with ⟨hfirst, hlast⟩
  cases hv : visits.getLast? with
  | none =>
      rcases hfirst (List.getLast?_eq_none_iff.mp hv) with ⟨_, hk, _⟩
      cases hk
  | some v => exact ⟨v, rfl, hlast v hv⟩

/-- A traversal that is refused is a fault on the line of the loop. -/
theorem result_of_refused (h : Traversal s id line body fuel after m visits ending r)
    (hending : ending = .refused) :
    ∃ m', r = .error ⟨m'.chunk, line, .library .lostKey⟩ m' := by
  induction h with
  | cut | exhausted | failed | left => cases hending
  | refused hlost => exact ⟨_, rfl⟩
  | again _ _ _ _ ih => exact ih hending

/-- A traversal that is exhausted has visited exactly those keys that were there when it was their
    turn. -/
theorem visited_iff (h : Traversal s id line body fuel after m visits ending r)
    (hending : ending = .exhausted) {k : Key} (hk : k.IsAfter after) :
    (∃ v ∈ visits, v.key = k) ↔
      (turn ((machineAfter r).tables.table id) k visits).contains k = true := by
  induction h with
  | cut | refused | failed | left => cases hending
  | @exhausted _ _ m _ hnext =>
      refine iff_of_false (fun ⟨_, hv, _⟩ => nomatch hv) ?_
      show ¬ ((m.tables.table id).contains k = true)
      rw [Table.not_contains_of_next? hnext hk]
      exact Bool.false_ne_true
  | @again _ _ m m' j v visits _ r _ hnext _ hrest ih =>
      have hother : j ≠ k →
          ((∃ w ∈ ⟨j, v, m.tables.table id, m'.tables.table id⟩ :: visits, w.key = k) ↔
            ∃ w ∈ visits, w.key = k) := fun hne => by
        simp [hne]
      rw [turn]
      dsimp only
      cases hcmp : compare j k with
      | lt =>
          rw [if_pos rfl, hother (Key.ne_of_lt hcmp)]
          exact ih hending (Key.isAfter_some.mpr hcmp)
      | eq =>
          have heq := Std.LawfulEqOrd.eq_of_compare hcmp
          rw [if_neg nofun]
          exact iff_of_true ⟨_, List.mem_cons_self, heq⟩ (heq ▸ (Table.get_of_next? hnext).2)
      | gt =>
          -- The key is passed over, and so it is not there.
          have hlt : compare k j = .lt := Std.OrientedCmp.lt_of_gt hcmp
          rw [if_neg nofun, hother (Key.ne_of_lt hlt).symm,
            Table.not_contains_of_lt_next? hnext hk hlt]
          refine iff_of_false ?_ Bool.false_ne_true
          rintro ⟨w, hw, rfl⟩
          exact Key.not_lt_of_lt hlt (Key.isAfter_some.mp (hrest.isAfter w hw))

/-- No key is visited twice. -/
theorem eq_of_key_eq (h : Traversal s id line body fuel after m visits ending r) {v w : Visit}
    (hv : v ∈ visits) (hw : w ∈ visits) (hkey : v.key = w.key) : v = w := by
  have hnodup : (visits.map (·.key)).Nodup :=
    List.pairwise_map.mpr (h.ascending.imp fun hlt => Key.ne_of_lt hlt)
  exact List.inj_on_of_nodup_map hnodup hv hw hkey

/-- Being visited is being visited once. -/
theorem visited_once_iff (h : Traversal s id line body fuel after m visits ending r)
    (hending : ending = .exhausted) {k : Key} (hk : k.IsAfter after) :
    (∃! v, v ∈ visits ∧ v.key = k) ↔
      (turn ((machineAfter r).tables.table id) k visits).contains k = true := by
  rw [← h.visited_iff hending hk]
  constructor
  · rintro ⟨v, ⟨hv, hkey⟩, _⟩
    exact ⟨v, hv, hkey⟩
  · rintro ⟨v, hv, rfl⟩
    exact ⟨v, ⟨hv, rfl⟩, fun w ⟨hw, hkey⟩ => h.eq_of_key_eq hw hv hkey⟩

/-- A traversal that begins at the start and loses no key is not refused. -/
theorem not_refused (h : Traversal s id line body fuel none m visits ending r)
    (hkept : ∀ v ∈ visits, v.after.contains v.key = true) : ending ≠ .refused := by
  intro hending
  rcases h.lost_last hending with ⟨v, hv, hlost⟩
  rw [hkept v (List.mem_of_getLast? hv)] at hlost
  cases hlost

/-- A body that clears every entry that it is given is run at most once, and nothing is left only if
    there was nothing. -/
theorem cleared (h : Traversal s id line body fuel none m visits ending r)
    (hcleared : ∀ v ∈ visits, v.after.contains v.key = false) :
    visits.length ≤ 1 ∧ (ending = .exhausted → ∀ k, (m.tables.table id).contains k = false) := by
  rcases h.kept with ⟨hgone, hend⟩
  have hnot : ∀ v ∈ visits, v.after.contains v.key ≠ true := fun v hv =>
    Bool.eq_false_iff.mp (hcleared v hv)
  refine ⟨?_, fun hending k => ?_⟩
  · rw [← Nat.sub_eq_zero_iff_le, ← List.length_dropLast, List.length_eq_zero_iff,
      List.eq_nil_iff_forall_not_mem]
    exact fun v hv => hnot v (List.mem_of_mem_dropLast hv) (hgone v hv)
  · have hnil : visits = [] := List.eq_nil_iff_forall_not_mem.mpr fun v hv =>
      hnot v hv (hend hending v hv)
    cases h with
    | cut | failed | left => cases hending
    | again => cases hnil
    | exhausted _ hnext => exact Table.not_contains_of_next? hnext k.isAfter_none

end Traversal

end Script

end PixelEffects
