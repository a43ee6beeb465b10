/-
**Finite maps from names, in the order of the names.**

Scopes and objects are finite maps from names.  A map is kept as a list of entries with strictly
increasing names, so two maps with the same entries are the same map, and whatever lists the
entries lists them in byte order.

Main definitions:

* `Scriptlet.Table` — the maps;
* `Scriptlet.Table.find?` — the view of a map as a function;
* `Scriptlet.Table.insert`, `Scriptlet.Table.ofList` — maps from their entries, a later entry
  replacing an earlier one of the same name.

Main results:

* `Scriptlet.Table.find?_empty`, `Scriptlet.Table.find?_insert`, `Scriptlet.Table.find?_ofList` —
  **what a map holds**;
* `Scriptlet.Table.ext_find?` — **maps that hold the same are equal**;
* `Scriptlet.Table.entries_ofList` — maps of entries that are in order.
-/

set_option relaxedAutoImplicit false
set_option autoImplicit false

namespace Scriptlet

variable {α : Type}

/-! ### Entries in increasing order -/

/-- The value stored under a name in a list of entries. -/
def findEntry (name : String) : List (String × α) → Option α
  | [] => none
  | (key, value) :: entries => if key = name then some value else findEntry name entries

/-- Stores a value under a name, keeping the entries in increasing order. -/
def insertEntry (name : String) (value : α) : List (String × α) → List (String × α)
  | [] => [(name, value)]
  | (key, old) :: entries =>
      if name < key then (name, value) :: (key, old) :: entries
      else if key < name then (key, old) :: insertEntry name value entries
      else (name, value) :: entries

/-- Whether the names of a list of entries increase strictly. -/
def Increasing (entries : List (String × α)) : Prop :=
  entries.Pairwise fun a b => a.1 < b.1

theorem eq_of_not_lt_of_not_lt {a b : String} (h : ¬a < b) (h' : ¬b < a) : a = b :=
  String.le_antisymm (String.not_lt.1 h') (String.not_lt.1 h)

theorem mem_insertEntry {name : String} {value : α} {entries : List (String × α)}
    {entry : String × α} (h : entry ∈ insertEntry name value entries) :
    entry.1 = name ∨ entry ∈ entries := by
  induction entries with
  | nil =>
      simp only [insertEntry, List.mem_singleton] at h
      exact Or.inl (by rw [h])
  | cons first entries ih =>
      obtain ⟨key, old⟩ := first
      rw [insertEntry] at h
      split at h
      · rcases List.mem_cons.1 h with h | h
        · exact Or.inl (by rw [h])
        · exact Or.inr h
      · split at h
        · rcases List.mem_cons.1 h with h | h
          · exact Or.inr (h ▸ List.mem_cons_self)
          · exact (ih h).imp_right (List.mem_cons_of_mem _)
        · rcases List.mem_cons.1 h with h | h
          · exact Or.inl (by rw [h])
          · exact Or.inr (List.mem_cons_of_mem _ h)

theorem Increasing.insertEntry {entries : List (String × α)} (h : Increasing entries)
    (name : String) (value : α) : Increasing (insertEntry name value entries) := by
  induction entries with
  | nil => exact List.pairwise_singleton _ _
  | cons first entries ih =>
      obtain ⟨key, old⟩ := first
      obtain ⟨hkey, hrest⟩ := List.pairwise_cons.1 h
      rw [Scriptlet.insertEntry]
      split
      · next hlt =>
        refine List.pairwise_cons.2 ⟨fun entry hentry => ?_, h⟩
        rcases List.mem_cons.1 hentry with hentry | hentry
        · exact hentry ▸ hlt
        · exact String.lt_trans hlt (hkey entry hentry)
      · next hnlt =>
        split
        · next hlt =>
          refine List.pairwise_cons.2 ⟨fun entry hentry => ?_, ih hrest⟩
          rcases mem_insertEntry hentry with hname | hentry
          · exact hname ▸ hlt
          · exact hkey entry hentry
        · next hnlt' =>
          have hname : name = key := eq_of_not_lt_of_not_lt hnlt hnlt'
          exact List.pairwise_cons.2 ⟨fun entry hentry => hname ▸ hkey entry hentry, hrest⟩

/-- What comes behind all names is stored at the end. -/
theorem insertEntry_of_lt {name : String} {value : α} {entries : List (String × α)}
    (h : ∀ entry ∈ entries, entry.1 < name) :
    insertEntry name value entries = entries ++ [(name, value)] := by
  induction entries with
  | nil => rfl
  | cons first entries ih =>
      obtain ⟨key, old⟩ := first
      have hkey : key < name := h _ List.mem_cons_self
      have hnlt : ¬ name < key := fun h => String.lt_irrefl key (String.lt_trans hkey h)
      rw [insertEntry, if_neg hnlt, if_pos hkey,
        ih fun entry hentry => h entry (List.mem_cons_of_mem _ hentry)]
      rfl

/-! ### Tables -/

/-- **A finite map from names**: entries with strictly increasing names. -/
structure Table (α : Type) where
  /-- The entries, in the order of their names. -/
  entries : List (String × α)
  /-- The names increase strictly, so no name has two entries. -/
  increasing : Increasing entries

namespace Table

/-- The map without entries. -/
def empty : Table α := ⟨[], List.Pairwise.nil⟩

instance : Inhabited (Table α) := ⟨empty⟩

/-- The value stored under a name. -/
def find? (table : Table α) (name : String) : Option α := findEntry name table.entries

/-- Whether anything is stored under a name. -/
def contains (table : Table α) (name : String) : Bool := (table.find? name).isSome

/-- Stores a value under a name, in place of what was stored there. -/
def insert (table : Table α) (name : String) (value : α) : Table α :=
  ⟨insertEntry name value table.entries, table.increasing.insertEntry name value⟩

/-- The map of a list of entries; of several entries with one name the last one counts. -/
def ofList (entries : List (String × α)) : Table α :=
  entries.foldl (fun table entry => table.insert entry.1 entry.2) empty

/-- Whether nothing is stored. -/
def isEmpty (table : Table α) : Bool := table.entries.isEmpty

/-! ### What a map holds -/

@[simp] theorem find?_empty (name : String) : (empty : Table α).find? name = none := rfl

theorem findEntry_insertEntry (name other : String) (value : α) (entries : List (String × α)) :
    findEntry other (insertEntry name value entries)
      = if name = other then some value else findEntry other entries := by
  induction entries with
  | nil => rfl
  | cons first entries ih =>
      obtain ⟨key, old⟩ := first
      rw [insertEntry]
      split
      · rw [findEntry]
      · next hnlt =>
        split
        · next hlt =>
          rw [findEntry, findEntry, ih]
          by_cases hk : key = other
          · subst hk
            have hne : name ≠ key := fun h => String.lt_irrefl key (h ▸ hlt)
            simp [hne]
          · simp [hk]
        · next hnlt' =>
          have hname : name = key := eq_of_not_lt_of_not_lt hnlt hnlt'
          subst hname
          rw [findEntry, findEntry]
          by_cases hk : name = other <;> simp [hk]

/-- **What a map holds after a value was stored**: the value under its name, and all else as
before. -/
@[simp] theorem find?_insert (table : Table α) (name other : String) (value : α) :
    (table.insert name value).find? other
      = if name = other then some value else table.find? other :=
  findEntry_insertEntry name other value table.entries

theorem mem_map_fst_iff {name : String} {entries : List (String × α)} :
    name ∈ entries.map Prod.fst ↔ (findEntry name entries).isSome := by
  induction entries with
  | nil => simp [findEntry]
  | cons first entries ih =>
      obtain ⟨key, value⟩ := first
      rw [findEntry, List.map_cons, List.mem_cons, ih]
      by_cases hk : key = name
      · simp [hk]
      · simp [hk, Ne.symm hk]

/-- **A map holds the last of the values that it was made of under a name.** -/
theorem find?_ofList (name : String) (entries : List (String × α)) :
    (ofList entries).find? name = entries.reverse.lookup name := by
  have hfold : ∀ (entries : List (String × α)) (table : Table α),
      (entries.foldl (fun table entry => table.insert entry.1 entry.2) table).find? name
        = (entries.reverse.lookup name).or (table.find? name) := by
    intro entries
    induction entries with
    | nil => exact fun table => rfl
    | cons first entries ih =>
        intro table
        obtain ⟨key, value⟩ := first
        rw [List.foldl_cons, ih, find?_insert, List.reverse_cons, List.lookup_append,
          Option.or_assoc]
        congr 1
        by_cases hk : key = name
        · simp [hk]
        · simp [hk, List.lookup_cons, beq_false_of_ne (Ne.symm hk)]
  rw [ofList, hfold, find?_empty, Option.or_none]

/-- A map holds only what it was made of. -/
theorem mem_of_find?_ofList {name : String} {value : α} {entries : List (String × α)}
    (h : (ofList entries).find? name = some value) : (name, value) ∈ entries := by
  rw [find?_ofList, List.lookup_eq_some_iff] at h
  obtain ⟨front, back, heq, -⟩ := h
  exact List.mem_reverse.1 (heq ▸ List.mem_append_right _ List.mem_cons_self)

/-- The names of a map are those of the entries that it was made of. -/
theorem mem_names_ofList {name : String} {entries : List (String × α)} :
    name ∈ (ofList entries).entries.map Prod.fst ↔ name ∈ entries.map Prod.fst := by
  rw [mem_map_fst_iff]
  change ((ofList entries).find? name).isSome ↔ _
  rw [find?_ofList, List.lookup_isSome_iff]
  constructor
  · rintro ⟨entry, hentry, hname⟩
    exact List.mem_map.2 ⟨entry, List.mem_reverse.1 hentry, (beq_iff_eq.1 hname).symm⟩
  · intro h
    obtain ⟨entry, hentry, rfl⟩ := List.mem_map.1 h
    exact ⟨entry, List.mem_reverse.2 hentry, beq_self_eq_true _⟩

theorem findEntry_eq_none_of_lt {name : String} {entries : List (String × α)}
    (h : ∀ entry ∈ entries, name < entry.1) : findEntry name entries = none := by
  induction entries with
  | nil => rfl
  | cons first entries ih =>
      obtain ⟨key, value⟩ := first
      have hkey : name < key := h _ List.mem_cons_self
      have hne : key ≠ name := fun e => String.lt_irrefl name (e ▸ hkey)
      rw [findEntry, if_neg hne]
      exact ih fun entry hentry => h entry (List.mem_cons_of_mem _ hentry)

/-- The first of some names is not before the first of others, if the maps hold the same. -/
theorem not_lt_of_findEntry_eq {k l : String} {v w : α} {as bs : List (String × α)}
    (hbs : ∀ entry ∈ bs, l < entry.1)
    (h : ∀ name, findEntry name ((k, v) :: as) = findEntry name ((l, w) :: bs)) : ¬ k < l := by
  intro hlt
  have hne : l ≠ k := fun e => String.lt_irrefl k (e ▸ hlt)
  have hk := h k
  rw [findEntry, if_pos rfl, findEntry, if_neg hne, findEntry_eq_none_of_lt] at hk
  · exact Option.some_ne_none _ hk
  · exact fun entry hentry => String.lt_trans hlt (hbs entry hentry)

theorem entries_eq_of_findEntry_eq {as bs : List (String × α)} (ha : Increasing as)
    (hb : Increasing bs) (h : ∀ name, findEntry name as = findEntry name bs) : as = bs := by
  induction as generalizing bs with
  | nil =>
      cases bs with
      | nil => rfl
      | cons b bs => have := h b.1; simp [findEntry] at this
  | cons a as ih =>
      obtain ⟨k, v⟩ := a
      cases bs with
      | nil => have := h k; simp [findEntry] at this
      | cons b bs =>
          obtain ⟨l, w⟩ := b
          obtain ⟨hka, has⟩ := List.pairwise_cons.1 ha
          obtain ⟨hlb, hbs⟩ := List.pairwise_cons.1 hb
          have hkl : k = l := eq_of_not_lt_of_not_lt (not_lt_of_findEntry_eq hlb h)
            (not_lt_of_findEntry_eq hka fun name => (h name).symm)
          subst hkl
          have hv : v = w := by
            have hk := h k
            rw [findEntry, if_pos rfl, findEntry, if_pos rfl] at hk
            exact Option.some_inj.1 hk
          subst hv
          congr 1
          refine ih has hbs fun name => ?_
          by_cases hname : k = name
          · subst hname
            rw [findEntry_eq_none_of_lt hka, findEntry_eq_none_of_lt hlb]
          · have hn := h name
            rwa [findEntry, if_neg hname, findEntry, if_neg hname] at hn

/-- The entries are what is stored under their names. -/
theorem find?_of_mem {table : Table α} {entry : String × α} (h : entry ∈ table.entries) :
    table.find? entry.1 = some entry.2 := by
  obtain ⟨entries, hincreasing⟩ := table
  change findEntry entry.1 entries = some entry.2
  induction entries with
  | nil => cases h
  | cons first entries ih =>
      obtain ⟨key, value⟩ := first
      obtain ⟨hkey, hrest⟩ := List.pairwise_cons.1 hincreasing
      rw [findEntry]
      rcases List.mem_cons.1 h with rfl | h
      · rw [if_pos rfl]
      · have hne : key ≠ entry.1 := fun e => String.lt_irrefl key (e ▸ hkey entry h)
        rw [if_neg hne]
        exact ih hrest h

/-- **Maps that hold the same are equal.** -/
theorem ext_find? {s t : Table α} (h : ∀ name, s.find? name = t.find? name) : s = t := by
  obtain ⟨as, ha⟩ := s
  obtain ⟨bs, hb⟩ := t
  cases entries_eq_of_findEntry_eq ha hb h
  rfl

/-- **A map of entries that are in order** has just these entries. -/
theorem entries_ofList {entries : List (String × α)} (h : Increasing entries) :
    (ofList entries).entries = entries := by
  have hfold : ∀ (entries : List (String × α)) (table : Table α),
      Increasing (table.entries ++ entries) →
        (entries.foldl (fun table entry => table.insert entry.1 entry.2) table).entries
          = table.entries ++ entries := by
    intro entries
    induction entries with
    | nil => simp
    | cons first entries ih =>
        intro table hincreasing
        have hlast : ∀ entry ∈ table.entries, entry.1 < first.1 := fun entry hentry =>
          (List.pairwise_append.1 hincreasing).2.2 entry hentry first List.mem_cons_self
        have hinsert : (table.insert first.1 first.2).entries = table.entries ++ [first] :=
          insertEntry_of_lt hlast
        rw [List.foldl_cons, ih, hinsert, List.append_assoc, List.singleton_append]
        rwa [hinsert, List.append_assoc, List.singleton_append]
  exact hfold entries empty h

end Table

end Scriptlet
