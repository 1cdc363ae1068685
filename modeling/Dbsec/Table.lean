import Mathlib

/-! Finite maps as entry lists with distinct keys. `put` replaces in place, so
storing what a key already holds changes nothing at all and two tables with one
history can be compared as they stand. The bound on a map is its `size`. -/
namespace Dbsec

structure Table (Key Value : Type) where
  entries : List (Key × Value)
  distinct : (entries.map Prod.fst).Nodup

namespace Table
variable {Key Value : Type} [DecidableEq Key]

def empty : Table Key Value := ⟨[], List.nodup_nil⟩

def size (table : Table Key Value) : Nat := table.entries.length

def find : List (Key × Value) → Key → Option Value
  | [], _ => none
  | (key, value) :: rest, asked => if key = asked then some value else find rest asked

def get (table : Table Key Value) (key : Key) : Option Value := find table.entries key

def store : List (Key × Value) → Key → Value → List (Key × Value)
  | [], key, value => [(key, value)]
  | (held, old) :: rest, key, value =>
    if held = key then (key, value) :: rest else (held, old) :: store rest key value

theorem mem_keys_store (entries : List (Key × Value)) (key other : Key) (value : Value)
    (listed : other ∈ (store entries key value).map Prod.fst) :
    other = key ∨ other ∈ entries.map Prod.fst := by
  induction entries with
  | nil => exact .inl (by simpa [store] using listed)
  | cons entry rest ih =>
    by_cases same : entry.1 = key
    · simp only [store, same, if_true, List.map_cons, List.mem_cons] at listed
      rcases listed with here | later
      · exact .inl here
      · exact .inr (List.mem_cons_of_mem _ later)
    · simp only [store, same, if_false, List.map_cons, List.mem_cons] at listed
      rcases listed with here | later
      · exact .inr (by simp [here])
      · rcases ih later with found | held
        · exact .inl found
        · exact .inr (List.mem_cons_of_mem _ held)

theorem nodup_store (entries : List (Key × Value)) (key : Key) (value : Value)
    (distinct : (entries.map Prod.fst).Nodup) :
    ((store entries key value).map Prod.fst).Nodup := by
  induction entries with
  | nil => simp [store]
  | cons entry rest ih =>
    rw [List.map_cons, List.nodup_cons] at distinct
    by_cases same : entry.1 = key
    · subst same
      simpa only [store, if_true, List.map_cons, List.nodup_cons] using distinct
    · simp only [store, same, if_false, List.map_cons, List.nodup_cons]
      refine ⟨?_, ih distinct.2⟩
      intro listed
      rcases mem_keys_store rest key entry.1 value listed with here | held
      · exact same here
      · exact distinct.1 held

def put (table : Table Key Value) (key : Key) (value : Value) : Table Key Value :=
  ⟨store table.entries key value, nodup_store table.entries key value table.distinct⟩

def retain (table : Table Key Value) (keep : Key → Value → Bool) : Table Key Value :=
  ⟨table.entries.filter fun entry => keep entry.1 entry.2,
    (List.filter_sublist.map Prod.fst).nodup table.distinct⟩

def remove (table : Table Key Value) (key : Key) : Table Key Value :=
  table.retain fun held _ => held ≠ key

@[simp]
theorem get_empty (key : Key) : (empty : Table Key Value).get key = none := rfl

theorem get_put (table : Table Key Value) (key asked : Key) (value : Value) :
    (table.put key value).get asked = if key = asked then some value else table.get asked := by
  obtain ⟨entries, distinct⟩ := table
  simp only [get, put]
  clear distinct
  induction entries with
  | nil => simp [store, find]
  | cons entry rest ih =>
    by_cases same : entry.1 = key
    · by_cases asking : key = asked <;> simp [store, find, same, asking]
    · by_cases asking : entry.1 = asked
      · subst asking
        simp [store, find, same, Ne.symm same]
      · simp [store, find, same, asking, ih]

@[simp]
theorem get_put_self (table : Table Key Value) (key : Key) (value : Value) :
    (table.put key value).get key = some value := by
  simp [get_put]

theorem get_put_ne (table : Table Key Value) {key asked : Key} (value : Value)
    (other : key ≠ asked) : (table.put key value).get asked = table.get asked := by
  simp [get_put, other]

theorem find_none_of_not_mem {entries : List (Key × Value)} {key : Key}
    (absent : key ∉ entries.map Prod.fst) : find entries key = none := by
  induction entries with
  | nil => rfl
  | cons entry rest ih =>
    rw [List.map_cons, List.mem_cons, not_or] at absent
    simp [find, Ne.symm absent.1, ih absent.2]

theorem get_retain (table : Table Key Value) (keep : Key → Value → Bool) (key : Key) :
    (table.retain keep).get key = (table.get key).filter (keep key) := by
  obtain ⟨entries, distinct⟩ := table
  simp only [get, retain]
  induction entries with
  | nil => rfl
  | cons entry rest ih =>
    rw [List.map_cons, List.nodup_cons] at distinct
    by_cases same : entry.1 = key
    · subst same
      by_cases kept : keep entry.1 entry.2
      · simp [kept, find, Option.filter]
      · have gone := find_none_of_not_mem distinct.1
        have dropped := ih distinct.2
        rw [gone] at dropped
        simpa [kept, find, Option.filter] using dropped
    · by_cases kept : keep entry.1 entry.2
      · simp [kept, find, same, ih distinct.2]
      · simp [kept, find, same, ih distinct.2]

theorem get_remove (table : Table Key Value) (key asked : Key) :
    (table.remove key).get asked = if asked = key then none else table.get asked := by
  rw [remove, get_retain]
  by_cases same : asked = key
  · cases table.get asked <;> simp [same]
  · cases table.get asked <;> simp [same]

theorem put_of_get (table : Table Key Value) {key : Key} {value : Value}
    (held : table.get key = some value) : table.put key value = table := by
  obtain ⟨entries, distinct⟩ := table
  simp only [get] at held
  simp only [put, mk.injEq]
  clear distinct
  induction entries with
  | nil => cases held
  | cons entry rest ih =>
    by_cases same : entry.1 = key
    · simp only [find, same, if_true, Option.some.injEq] at held
      subst held same
      simp [store]
    · simp only [find, same, if_false] at held
      simp [store, same, ih held]

theorem size_put (table : Table Key Value) (key : Key) (value : Value) :
    (table.put key value).size = if (table.get key).isNone then table.size + 1 else table.size := by
  change (store table.entries key value).length =
    if (find table.entries key).isNone then table.entries.length + 1 else table.entries.length
  induction table.entries with
  | nil => rfl
  | cons entry rest ih =>
    by_cases same : entry.1 = key
    · simp [store, find, same]
    · simp only [store, find, same, if_false, List.length_cons, ih]
      split
      · rfl
      · rfl

omit [DecidableEq Key] in
theorem size_retain (table : Table Key Value) (keep : Key → Value → Bool) :
    (table.retain keep).size ≤ table.size :=
  List.length_filter_le _ _

end Table
end Dbsec
