/-
**What an object literal makes, and how it is shown.**

The entries of a literal are evaluated from left to right, each once, and the first that fails is
the last that is evaluated.  A key may be given several times; what counts is the last of its
values.  What is shown of the object does not remember anything else: not in which order the keys
came, and not in which order a map that holds them lists them, since they are sorted before they are
shown.  So two objects have the same text if the last values of their keys have, whatever these are,
and so on inwards.

Main definitions:

* `Scriptlet.EntriesRun` — **entries are evaluated from left to right**;
* `Scriptlet.IsListingOf` — a map of some properties, listed in any order;
* `Scriptlet.Value.sortedText` — the text of an object whose properties are sorted first;
* `Scriptlet.ShowsProperties` — **a text shows properties**, each key once and in the order of the
  bytes.

Main results:

* `Scriptlet.evalEntries_cases` — how the entries of a literal are evaluated;
* `Scriptlet.IsListingOf.mergeSort_eq` — **the order of a listing does not matter**;
* `Scriptlet.ShowsProperties.unique` — **the last values of the keys settle the text**;
* `Scriptlet.object_literal_shows` — what a literal makes and what is shown of it.
-/

import Mathlib
import Scriptlet.Proofs.Eval.Objects
import Scriptlet.Proofs.Eval.Parameters
import Scriptlet.Proofs.Eval.Trail
import Scriptlet.Proofs.Text.ByteOrder

set_option relaxedAutoImplicit false
set_option autoImplicit false

namespace Scriptlet

/-! ### Entries one after the other -/

section Entries

variable (calls : Calls) (scope : Nat)

/-- The value of an entry; if it is a name alone, then this is looked up. -/
def Entry.value : Entry → Eval Value
  | .shorthand key => Eval.lookUp scope key
  | .pair _ value => value.eval calls scope

/-- **Entries are evaluated from left to right**, each once, in the state that the one before it
left. -/
inductive EntriesRun : Machine → List Entry → List (String × Value) → Machine → Prop
  /-- No entries are left. -/
  | nil (machine : Machine) : EntriesRun machine [] [] machine
  /-- An entry has a value, and then the others are evaluated. -/
  | cons {machine middle stop : Machine} {entry : Entry} {entries : List Entry} {v : Value}
      {properties : List (String × Value)}
      (h : (entry.value calls scope).run machine = (.ok v, middle))
      (hrest : EntriesRun middle entries properties stop) :
      EntriesRun machine (entry :: entries) ((entry.key, v) :: properties) stop

variable {calls scope}

theorem evalEntries_cons (entry : Entry) (entries : List Entry) :
    evalEntries calls scope (entry :: entries) = do
      let v ← entry.value calls scope
      let vs ← evalEntries calls scope entries
      return (entry.key, v) :: vs := by
  cases entry <;> rfl

/-- The keys of the properties are those of the entries, in the same order. -/
theorem EntriesRun.keys {machine stop : Machine} {entries : List Entry}
    {properties : List (String × Value)}
    (h : EntriesRun calls scope machine entries properties stop) :
    properties.map Prod.fst = entries.map Entry.key := by
  induction h with
  | nil => rfl
  | cons _ _ ih => rw [List.map_cons, List.map_cons, ih]

theorem EntriesRun.run_evalEntries {machine stop : Machine} {entries : List Entry}
    {properties : List (String × Value)}
    (h : EntriesRun calls scope machine entries properties stop) :
    (evalEntries calls scope entries).run machine = (.ok properties, stop) := by
  induction h with
  | nil => rfl
  | cons hfirst _ ih =>
      rw [evalEntries_cons, Eval.run_bind, hfirst]
      dsimp only
      rw [Eval.run_bind, ih]
      rfl

variable (calls scope) in
/-- **How entries are evaluated**: all of them, or those in front of the first one that fails. -/
theorem evalEntries_cases (entries : List Entry) (machine : Machine) :
    (∃ properties stop, EntriesRun calls scope machine entries properties stop ∧
      (evalEntries calls scope entries).run machine = (.ok properties, stop)) ∨
    ∃ front entry back properties middle fault stop, entries = front ++ entry :: back ∧
      EntriesRun calls scope machine front properties middle ∧
      (entry.value calls scope).run middle = (.error fault, stop) ∧
      (evalEntries calls scope entries).run machine = (.error fault, stop) := by
  induction entries generalizing machine with
  | nil => exact Or.inl ⟨[], machine, .nil machine, rfl⟩
  | cons entry entries ih =>
      rw [evalEntries_cons, Eval.run_bind]
      rcases hfirst : (entry.value calls scope).run machine with ⟨result, middle⟩
      cases result with
      | error fault => exact Or.inr ⟨[], entry, entries, [], machine, fault, middle, rfl,
          .nil machine, hfirst, rfl⟩
      | ok v =>
          dsimp only
          rw [Eval.run_bind]
          rcases ih middle with ⟨properties, stop, hrest, hrun⟩ |
            ⟨front, last, back, properties, ready, fault, stop, rfl, hfront, hlast, hrun⟩
          · exact Or.inl ⟨_, stop, .cons hfirst hrest, by rw [hrun]; rfl⟩
          · exact Or.inr ⟨entry :: front, last, back, _, ready, fault, stop, rfl,
              .cons hfirst hfront, hlast, by rw [hrun]⟩

end Entries

/-! ### Listings of properties -/

/-- **A map of some properties, listed in any order**: every key once, with the last of its
values. -/
structure IsListingOf (listing properties : List (String × Value)) : Prop where
  /-- Nothing is listed twice. -/
  nodup : listing.Nodup
  /-- What is listed are the last values. -/
  mem_iff : ∀ key v, (key, v) ∈ listing ↔ properties.reverse.lookup key = some v

/-- The text of an object whose properties come in any order: they are sorted by their keys
first. -/
def Value.sortedText (store : Store) (listing : List (String × Value)) : String :=
  objectText ((listing.mergeSort fun p q => decide (p.1 ≤ q.1)).map fun p => (p.1, p.2.text store))

/-- What a table holds is what it lists. -/
theorem Table.mem_entries_iff {α : Type} {table : Table α} {key : String} {v : α} :
    (key, v) ∈ table.entries ↔ table.find? key = some v := by
  refine ⟨fun h => find?_of_mem h, fun h => ?_⟩
  have hkey : key ∈ table.entries.map Prod.fst := by
    rw [mem_map_fst_iff]
    change (table.find? key).isSome
    rw [h]
    rfl
  obtain ⟨entry, hentry, rfl⟩ := List.mem_map.1 hkey
  rw [find?_of_mem hentry, Option.some_inj] at h
  exact h ▸ hentry

/-- A table is empty only if it was made of nothing. -/
theorem Table.entries_ofList_eq_nil_iff {α : Type} {entries : List (String × α)} :
    (ofList entries).entries = [] ↔ entries = [] := by
  constructor
  · intro h
    cases entries with
    | nil => rfl
    | cons first entries =>
        have hname : first.1 ∈ (ofList (first :: entries)).entries.map Prod.fst :=
          mem_names_ofList.2 List.mem_cons_self
        rw [h] at hname
        cases hname
  · rintro rfl
    rfl

/-- A table lists properties in one of the orders. -/
theorem isListingOf_ofList (properties : List (String × Value)) :
    IsListingOf (Table.ofList properties).entries properties where
  nodup := (Table.ofList properties).increasing.imp fun h => by
    rintro rfl
    exact String.lt_irrefl _ h
  mem_iff key v := by rw [Table.mem_entries_iff, Table.find?_ofList]

/-- **However properties are listed, sorting them gives the table of them.** -/
theorem IsListingOf.mergeSort_eq {listing properties : List (String × Value)}
    (h : IsListingOf listing properties) :
    (listing.mergeSort fun p q => decide (p.1 ≤ q.1)) = (Table.ofList properties).entries := by
  have htable := isListingOf_ofList properties
  have hperm : listing.Perm (Table.ofList properties).entries :=
    (List.perm_ext_iff_of_nodup h.nodup htable.nodup).2 fun p => by
      rw [h.mem_iff p.1 p.2, htable.mem_iff p.1 p.2]
  have hsorted := @List.pairwise_mergeSort _ (fun p q : String × Value => decide (p.1 ≤ q.1))
    (fun a b c hab hbc => by simp only [decide_eq_true_eq] at *; exact le_trans hab hbc)
    (fun a b => by simpa using le_total a.1 b.1) listing
  refine ((List.mergeSort_perm _ _).trans hperm).eq_of_pairwise (fun p q hp hq hpq hqp => ?_)
    (hsorted.imp of_decide_eq_true) ((Table.ofList properties).increasing.imp le_of_lt)
  -- two entries of one key are the same
  have hkey : p.1 = q.1 := le_antisymm hpq hqp
  have hfound := Table.find?_of_mem (hperm.mem_iff.1 ((List.mergeSort_perm _ _).mem_iff.1 hp))
  rw [hkey, Table.find?_of_mem hq, Option.some_inj] at hfound
  exact Prod.ext hkey hfound.symm

/-! ### What is shown of an object -/

/-- **A text shows properties**, in a store. -/
structure ShowsProperties (store : Store) (properties : List (String × Value)) (text : String) :
    Prop where
  /-- Every key is shown once, in the order of the bytes, with the text of the last of its
  values. -/
  shown : ∃ shown : List (String × String), text = Value.objectText shown ∧
    shown.Pairwise (fun a b => bytesOf a.1 < bytesOf b.1) ∧
    ∀ key inner, (key, inner) ∈ shown ↔
      (properties.reverse.lookup key).map (·.text store) = some inner
  /-- An empty pair of braces shows that there are no properties. -/
  empty : text = "\x7b\x7d" ↔ properties = []
  /-- It does not matter in which order a map lists the properties. -/
  listing : ∀ listing, IsListingOf listing properties → text = Value.sortedText store listing

/-- Only without properties is there nothing between the braces. -/
theorem objectText_eq_empty_iff {properties : List (String × String)} :
    Value.objectText properties = "\x7b\x7d" ↔ properties = [] := by
  constructor
  · intro h
    by_contra hne
    rw [Value.objectText, if_neg (by simpa using hne), String.append_assoc, ← String.toList_inj,
      String.toList_append] at h
    exact absurd (List.cons.inj (List.cons.inj h).2).1 (by decide)
  · rintro rfl
    rfl

/-- **Lists in the order of their keys with the same members are the same.** -/
theorem eq_of_increasing {shown shown' : List (String × String)}
    (h : shown.Pairwise fun a b => bytesOf a.1 < bytesOf b.1)
    (h' : shown'.Pairwise fun a b => bytesOf a.1 < bytesOf b.1)
    (hmem : ∀ key inner, (key, inner) ∈ shown ↔ (key, inner) ∈ shown') : shown = shown' := by
  have hirrefl : ∀ {l : List (String × String)},
      (l.Pairwise fun a b => bytesOf a.1 < bytesOf b.1) → l.Nodup := by
    refine fun hl => hl.imp fun hlt => ?_
    rintro rfl
    exact List.lt_irrefl _ hlt
  refine ((List.perm_ext_iff_of_nodup (hirrefl h) (hirrefl h')).2 fun p =>
    hmem p.1 p.2).eq_of_pairwise (fun a b _ _ hab hba => ?_) h h'
  exact absurd hab (List.lt_asymm hba)

/-- **The last values of the keys settle the text**, and of them only their texts count. -/
theorem ShowsProperties.unique {store store' : Store}
    {properties properties' : List (String × Value)} {text text' : String}
    (h : ShowsProperties store properties text)
    (h' : ShowsProperties store' properties' text')
    (hlast : ∀ key, (properties.reverse.lookup key).map (·.text store)
      = (properties'.reverse.lookup key).map (·.text store')) : text = text' := by
  obtain ⟨shown, rfl, hshown, hmem⟩ := h.shown
  obtain ⟨shown', rfl, hshown', hmem'⟩ := h'.shown
  rw [eq_of_increasing hshown hshown' fun key inner => by rw [hmem, hmem', hlast]]

/-- **The text of an object shows the properties that it was made of.** -/
theorem Store.WellFormed.shows {store : Store} (h : store.WellFormed) {i : Nat}
    (hi : i < store.objects.size) {properties : List (String × Value)}
    (hobject : store.object i = Table.ofList properties) :
    ShowsProperties store properties ((Value.object i).text store) := by
  have htext := (h.shown_object hi).1
  rw [hobject] at htext
  have htable := isListingOf_ofList properties
  refine ⟨⟨_, htext, ?_, fun key inner => ?_⟩, ?_, fun listing hlisting => ?_⟩
  · rw [List.pairwise_map]
    exact (Table.ofList properties).increasing.imp lt_iff_bytesOf_lt.1
  · constructor
    · intro hmem
      obtain ⟨⟨key', v⟩, hv, heq⟩ := List.mem_map.1 hmem
      obtain ⟨rfl, rfl⟩ := Prod.mk.inj heq
      rw [(htable.mem_iff key' v).1 hv]
      rfl
    · intro hlast
      obtain ⟨v, hv, rfl⟩ := Option.map_eq_some_iff.1 hlast
      exact List.mem_map.2 ⟨(key, v), (htable.mem_iff key v).2 hv, rfl⟩
  · rw [htext, objectText_eq_empty_iff, List.map_eq_nil_iff, Table.entries_ofList_eq_nil_iff]
  · rw [Value.sortedText, hlisting.mergeSort_eq]
    exact htext

/-! ### Object literals -/

/-- A literal whose entries have values makes an object of them. -/
theorem run_object_of_ok {calls : Calls} {scope : Nat} {entries : List Entry}
    {machine ready : Machine} {properties : List (String × Value)}
    (h : (evalEntries calls scope entries).run machine = (.ok properties, ready)) :
    ((Expr.object entries).eval calls scope).run machine
      = (.ok (.object ready.store.objects.size),
        { ready with store := (ready.store.newObject (Table.ofList properties)).2 }) := by
  rw [Expr.eval, Eval.run_bind, h]
  rfl

/-- A literal with an entry that fails makes nothing. -/
theorem run_object_of_error {calls : Calls} {scope : Nat} {entries : List Entry}
    {machine stop : Machine} {fault : Fault}
    (h : (evalEntries calls scope entries).run machine = (.error fault, stop)) :
    ((Expr.object entries).eval calls scope).run machine = (.error fault, stop) := by
  rw [Expr.eval, Eval.run_bind, h]

/-- A literal leaves a store that holds together. -/
theorem wellFormed_object {depth scope : Nat} {machine : Machine}
    (h : machine.store.WellFormed) (hscope : machine.store.Has (.scope scope))
    (entries : List Entry) :
    (((Expr.object entries).eval (callWithin depth) scope).run machine).2.store.WellFormed := by
  have hgrows := (Program.eval_grows ⟨[.expr (.object entries)]⟩ depth h hscope).1
  rw [Program.eval, evalBlock_singleton] at hgrows
  exact hgrows.wellFormed h

/-- **What an object literal makes, and how it is shown.**

Its entries are evaluated from left to right, each once.  If one of them fails, then the literal
fails with it, there and then: the entries behind it are not evaluated, and no object is made.
Otherwise an object is made, and under every key it has the last of the values that were given for
the key, and null if none was.

The text of the object shows each key once, in the order of the bytes, with the text of its value;
there is nothing between the braces only if no key was given; and it is what comes of sorting the
keys, in whichever order a map may list them.  So another text that shows properties is the same
text, if the last values of all keys have the same texts. -/
theorem object_literal_shows (depth scope : Nat) (entries : List Entry) (machine : Machine) :
    let calls := callWithin depth
    let literal := ((Expr.object entries).eval calls scope).run machine
    (∃ front entry back properties ready fault, entries = front ++ entry :: back ∧
      EntriesRun calls scope machine front properties ready ∧
      (entry.value calls scope).run ready = (.error fault, literal.2) ∧
      literal.1 = .error fault) ∨
    ∃ properties ready, EntriesRun calls scope machine entries properties ready ∧
      let made := ready.store.objects.size
      literal = (.ok (.object made),
        { ready with store := (ready.store.newObject (Table.ofList properties)).2 }) ∧
      (∀ key, (propertyOf (.object made) key).run literal.2
        = (.ok ((properties.reverse.lookup key).getD .null), literal.2)) ∧
      (machine.store.WellFormed → machine.store.Has (.scope scope) →
        let text := (Value.object made).text literal.2.store
        ShowsProperties literal.2.store properties text ∧
        ∀ store' properties' text', ShowsProperties store' properties' text' →
          (∀ key, (properties.reverse.lookup key).map (·.text literal.2.store)
            = (properties'.reverse.lookup key).map (·.text store')) → text = text') := by
  intro calls literal
  rcases evalEntries_cases calls scope entries machine with
    ⟨properties, ready, hentries, hrun⟩ |
    ⟨front, entry, back, properties, ready, fault, stop, heq, hfront, hentry, hrun⟩
  · right
    have hliteral : literal = _ := run_object_of_ok hrun
    have hobject : literal.2.store.object ready.store.objects.size = Table.ofList properties := by
      rw [hliteral, Store.object_newObject, if_pos rfl]
    refine ⟨properties, ready, hentries, hliteral, fun key => ?_, fun hmachine hscope => ?_⟩
    · change (Except.ok _, literal.2) = _
      rw [hobject, Table.find?_ofList]
    · have hshows : ShowsProperties literal.2.store properties
          ((Value.object ready.store.objects.size).text literal.2.store) := by
        refine (wellFormed_object hmachine hscope entries).shows ?_ hobject
        change ready.store.objects.size < literal.2.store.objects.size
        rw [hliteral]
        simp [Store.newObject]
      exact ⟨hshows, fun store' properties' text' hshows' => hshows.unique hshows'⟩
  · left
    have hliteral : literal = _ := run_object_of_error hrun
    exact ⟨front, entry, back, properties, ready, fault, heq, hfront, by rw [hliteral, hentry],
      by rw [hliteral]⟩

/-- Of two values of one key the last one counts, and the keys are shown in order. -/
theorem object_literal_shows_repeated :
    let entries : List Entry :=
      [.shorthand "true", .pair "null" (.name "null"), .pair "true" (.name "false")]
    let literal := ((Expr.object entries).eval (callWithin 0) 0).run (Machine.start none).2
    literal.1 = .ok (.object 0) ∧
      (Value.object 0).text literal.2.store = "\x7b null: null, true: false \x7d" := by
  intro entries literal
  have hvalue : literal.1 = .ok (.object 0) := rfl
  rcases object_literal_shows 0 0 entries (Machine.start none).2 with
    ⟨-, -, -, -, -, fault, -, -, -, hfails⟩ | ⟨properties, ready, hentries, hliteral, -, hshown⟩
  · rw [hvalue] at hfails
    cases hfails
  · refine ⟨hvalue, ?_⟩
    have hproperties : properties
        = [("true", .boolean true), ("null", .null), ("true", .boolean false)] :=
      (Except.ok.inj (congrArg Prod.fst hentries.run_evalEntries)).symm
    subst hproperties
    obtain ⟨hshows, -⟩ := hshown (Machine.wellFormed_start none) (by decide)
    have hmade : ready.store.objects.size = 0 :=
      Value.object.inj (Except.ok.inj ((congrArg Prod.fst hliteral).symm.trans hvalue))
    rw [hmade] at hshows
    have hlisting := isListingOf_ofList
      [("true", .boolean true), ("null", .null), ("true", .boolean false)]
    rw [hshows.listing _ hlisting, Value.sortedText, hlisting.mergeSort_eq]
    rfl

end Scriptlet
