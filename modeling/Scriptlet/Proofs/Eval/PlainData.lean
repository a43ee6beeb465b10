/-
**What is printed of plain data is source code for it.**

A value is a datum, as a tree, if it has the same properties at every level; which objects it is
made of, and whether one of them is held twice, does not matter.  The text of a value is that of its
datum.  So it is parsed to the literal of the datum.  And wherever the names of null and of the
truth values mean these, the literal is evaluated to a value that is the same datum, and nothing is
done on the way but creating objects.

Main definitions:

* `Scriptlet.Value.Denotes` — **the value is the datum**, in a store;
* `Scriptlet.Eval.Creates` — a computation that only creates objects.

Main results:

* `Scriptlet.Value.Denotes.text_eq` — the text of a value is that of its datum;
* `Scriptlet.Datum.creates_literal` — **the literal of a datum is evaluated to the datum**;
* `Scriptlet.plain_data_readable` — **the text of plain data is source code for it**.
-/

import Scriptlet.Proofs.Eval.Objects
import Scriptlet.Proofs.Eval.Sequence
import Scriptlet.Proofs.Syntax.Literals

set_option relaxedAutoImplicit false
set_option autoImplicit false

namespace Scriptlet

/-! ### Values and data -/

mutual

/-- **The value is the datum**, in a store. -/
inductive Value.Denotes (store : Store) : Value → Datum → Prop
  | null : Value.Denotes store .null .null
  | boolean (b : Bool) : Value.Denotes store (.boolean b) (.boolean b)
  | number (x : Float) : Value.Denotes store (.number x) (.number x)
  | object {i : Nat} {properties : List (String × Datum)} (hi : i < store.objects.size)
      (h : EntriesDenote store (store.object i).entries properties) :
      Value.Denotes store (.object i) (.object properties)

/-- The entries are the properties: the same keys, and under each of them a value that is the
datum. -/
inductive EntriesDenote (store : Store) :
    List (String × Value) → List (String × Datum) → Prop
  | nil : EntriesDenote store [] []
  | cons {key : String} {v : Value} {d : Datum} {entries : List (String × Value)}
      {properties : List (String × Datum)} (hv : v.Denotes store d)
      (h : EntriesDenote store entries properties) :
      EntriesDenote store ((key, v) :: entries) ((key, d) :: properties)

end

variable {store later : Store}

/-- What is a datum is there. -/
theorem Value.Denotes.holds {v : Value} {d : Datum} (h : v.Denotes store d) : store.Holds v := by
  cases h with
  | object hi _ => exact fun p hp => Option.some_inj.1 hp ▸ hi
  | _ => exact nofun

theorem EntriesDenote.holds {entries : List (String × Value)}
    {properties : List (String × Datum)} (h : EntriesDenote store entries properties) :
    ∀ entry ∈ entries, store.Holds entry.2 := by
  cases h with
  | nil => exact nofun
  | cons hv h => exact List.forall_mem_cons.2 ⟨hv.holds, h.holds⟩

theorem EntriesDenote.map_fst {entries : List (String × Value)}
    {properties : List (String × Datum)} (h : EntriesDenote store entries properties) :
    entries.map Prod.fst = properties.map Prod.fst := by
  cases h with
  | nil => rfl
  | cons _ h => rw [List.map_cons, List.map_cons, h.map_fst]

mutual

/-- **A value goes on to be the datum** when the store grows. -/
theorem Value.Denotes.grows {v : Value} {d : Datum} (h : v.Denotes store d)
    (hgrows : store.Grows later) : v.Denotes later d := by
  cases h with
  | null => exact .null
  | boolean b => exact .boolean b
  | number x => exact .number x
  | object hi h =>
      refine .object (Nat.lt_of_lt_of_le hi hgrows.objects_size_le) ?_
      rw [hgrows.object_eq hi]
      exact h.grows hgrows

theorem EntriesDenote.grows {entries : List (String × Value)}
    {properties : List (String × Datum)} (h : EntriesDenote store entries properties)
    (hgrows : store.Grows later) : EntriesDenote later entries properties := by
  cases h with
  | nil => exact .nil
  | cons hv h => exact .cons (hv.grows hgrows) (h.grows hgrows)

end

mutual

/-- **The text of a value is that of its datum.** -/
theorem Value.Denotes.text_eq {v : Value} {d : Datum} (h : v.Denotes store d)
    (hstore : store.WellFormed) : v.text store = d.text := by
  cases h with
  | null | boolean | number => rw [Value.text, Value.textWithin, Datum.text]
  | object hi h => rw [(hstore.shown_object hi).1, h.texts_eq hstore, Datum.text]

theorem EntriesDenote.texts_eq {entries : List (String × Value)}
    {properties : List (String × Datum)} (h : EntriesDenote store entries properties)
    (hstore : store.WellFormed) :
    entries.map (fun p => (p.1, p.2.text store)) = propertyTexts properties := by
  cases h with
  | nil => rfl
  | cons hv h => rw [List.map_cons, hv.text_eq hstore, h.texts_eq hstore, propertyTexts]

end

/-! ### Computations that only create objects -/

namespace Eval

variable {α β : Type}

/-- **The computation returns** something with a property, and only creates objects: names mean what
they did, and nothing is written or left behind. -/
def Creates (m : Eval α) (machine : Machine) (P : Store → α → Prop) : Prop :=
  ∃ a store, m.run machine = (.ok a, { machine with store := store }) ∧
    machine.store.Grows store ∧ store.scopes = machine.store.scopes ∧ P store a

theorem creates_pure {P : Store → α → Prop} {machine : Machine} {a : α}
    (h : P machine.store a) : (pure a : Eval α).Creates machine P :=
  ⟨a, machine.store, rfl, .refl, rfl, h⟩

theorem creates_lookUp {P : Store → Value → Prop} {machine : Machine} {s : Nat} {name : String}
    {v : Value} (hv : machine.store.lookUp s name = .ok v) (h : P machine.store v) :
    (lookUp s name).Creates machine P := by
  refine ⟨v, machine.store, ?_, .refl, rfl, h⟩
  rw [lookUp, run_ask, hv]
  rfl

theorem creates_allocate {P : Store → Value → Prop} {machine : Machine} {properties : Table Value}
    (hvalues : ∀ key v, properties.find? key = some v → machine.store.Holds v)
    (h : P (machine.store.newObject properties).2 (.object machine.store.objects.size)) :
    (allocate properties).Creates machine P :=
  ⟨_, _, rfl, .single (.newObject hvalues), rfl, h⟩

theorem Creates.bind {P : Store → α → Prop} {Q : Store → β → Prop} {m : Eval α} {f : α → Eval β}
    {machine : Machine} (hm : m.Creates machine P)
    (hf : ∀ a store, machine.store.Grows store → store.scopes = machine.store.scopes →
      P store a → (f a).Creates { machine with store := store } Q) :
    (m >>= f).Creates machine Q := by
  obtain ⟨a, store, hrun, hgrows, hscopes, ha⟩ := hm
  obtain ⟨b, store', hrun', hgrows', hscopes', hb⟩ := hf a store hgrows hscopes ha
  refine ⟨b, store', ?_, hgrows.trans hgrows', hscopes'.trans hscopes, hb⟩
  rw [run_bind, hrun]
  exact hrun'

end Eval

/-! ### Evaluating literals -/

/-- Scopes alone tell what names mean. -/
theorem Store.lookUp_congr (h : later.scopes = store.scopes) (s : Nat) (name : String) :
    later.lookUp s name = store.lookUp s name := by
  have hscope : ∀ t, later.scope t = store.scope t := fun t => by
    rw [Store.scope, Store.scope, h]
  have hchain : later.chain s = store.chain s := Store.chain_congr fun t _ => by rw [hscope]
  rw [Store.lookUp, Store.lookUp, hchain]
  simp only [Store.binding?, hscope]

/-- **The names of null and of the truth values** mean these in a scope. -/
structure Store.MeansConstants (store : Store) (s : Nat) : Prop where
  /-- The name of null means null. -/
  null : store.lookUp s "null" = .ok .null
  /-- The names of the truth values mean the truth values. -/
  boolean : ∀ b : Bool, store.lookUp s (if b then "true" else "false") = .ok (.boolean b)

theorem Store.MeansConstants.of_scopes_eq {s : Nat} (h : store.MeansConstants s)
    (hscopes : later.scopes = store.scopes) : later.MeansConstants s where
  null := (Store.lookUp_congr hscopes s _).trans h.null
  boolean b := (Store.lookUp_congr hscopes s _).trans (h.boolean b)

/-- They do where scripts start. -/
theorem Store.meansConstants_newStart (store : Store) :
    store.newStart.2.MeansConstants store.newStart.1 where
  null := Store.lookUp_of_binding? (Store.binding?_newStart (by simp [startConstants]))
  boolean b := by
    refine Store.lookUp_of_binding? (b := ⟨.boolean b, true⟩) (Store.binding?_newStart ?_)
    cases b <;> simp [startConstants]

section

variable (calls : Calls) {s : Nat} {original : Store}

mutual

/-- **The literal of a datum is evaluated to the datum**, if any value is that datum: then the keys
of objects are in order. -/
theorem Datum.creates_literal (d : Datum) {v : Value} (h : v.Denotes original d)
    {machine : Machine} (hs : machine.store.MeansConstants s) :
    (d.literal.eval calls s).Creates machine fun store v => v.Denotes store d := by
  cases h with
  | null => exact Eval.creates_lookUp hs.null .null
  | boolean b => exact Eval.creates_lookUp (hs.boolean b) (.boolean b)
  | number x => exact Eval.creates_pure (.number x)
  | @object i properties _ h =>
      refine (creates_literalEntries properties h hs).bind fun entries store _ _ hentries => ?_
      have hincreasing : Increasing entries := by
        have horiginal := List.pairwise_map.2 (original.object i).increasing
        rw [h.map_fst, ← hentries.map_fst] at horiginal
        exact List.pairwise_map.1 horiginal
      have hvalues : ∀ key v, (Table.ofList entries).find? key = some v → store.Holds v :=
        fun key v hv => hentries.holds _ (Table.mem_of_find?_ofList hv)
      refine Eval.creates_allocate hvalues (.object (by simp [Store.newObject]) ?_)
      rw [Store.object_newObject, if_pos rfl, Table.entries_ofList hincreasing]
      exact hentries.grows (.single (.newObject hvalues))

theorem creates_literalEntries (properties : List (String × Datum))
    {entries : List (String × Value)} (h : EntriesDenote original entries properties)
    {machine : Machine} (hs : machine.store.MeansConstants s) :
    (evalEntries calls s (literalEntries properties)).Creates machine fun store entries =>
      EntriesDenote store entries properties := by
  cases h with
  | nil => exact Eval.creates_pure .nil
  | @cons key v d entries properties hv h =>
      refine (d.creates_literal hv hs).bind fun w store _ hscopes hw => ?_
      refine (creates_literalEntries properties h (hs.of_scopes_eq hscopes)).bind
        fun ws store' hgrows _ hws => ?_
      exact Eval.creates_pure (.cons (hw.grows hgrows) hws)

end

end

/-! ### Running the text of a value -/

/-- **The text of plain data is source code for it**, in every scope where the names of null and of
the truth values mean these: running it creates objects and does nothing else. -/
theorem Datum.run_text {d : Datum} (hplain : d.Plain) {v : Value} (h : v.Denotes store d)
    {machine : Machine} {s : Nat} (hs : machine.store.MeansConstants s) (depth : Nat) :
    ∃ v' later, run depth s d.text machine = (.ok v', later) ∧
      machine.store.Grows later.store ∧ later.store.scopes = machine.store.scopes ∧
      later.output = machine.output ∧ later.room = machine.room ∧ v'.Denotes later.store d := by
  obtain ⟨start, ⟨hstore, houtput, hroom⟩, hload⟩ :=
    exists_loadProgram_eq (Datum.ofSource_text hplain) machine
  rw [← hstore] at hs ⊢
  have heval : (Program.eval depth s ⟨[.expr d.literal]⟩).Creates start
      fun store v => v.Denotes store d :=
    (d.creates_literal (callWithin depth) h hs).bind fun v' _ _ _ hv' => Eval.creates_pure hv'
  obtain ⟨v', store', hrun, hgrows, hscopes, hv'⟩ := heval
  refine ⟨v', { start with store := store' }, ?_, hgrows, hscopes, houtput, hroom, hv'⟩
  rw [run_of_loadProgram hload, hrun]
  rfl

/-- **What is printed of plain data is source code for it.**

The words that keys may be are those that are read as names.  A value that is plain data, in any
store that holds together, has a text that can be run in a new scope where scripts start, in any
state and down to any depth of calls: the run succeeds, writes nothing and leaves all scopes as they
are, and its value is the same datum, with the same properties at every level, and has the same
text. -/
theorem plain_data_readable :
    (∀ key, IsWord key ↔
      ∃ tok ∈ (scan key).tokens, tok.kind = .identifier ∧ tok.text = key) ∧
    ∀ (store : Store) (v : Value) (d : Datum), store.WellFormed → v.Denotes store d → d.Plain →
      ∀ (depth : Nat) (machine : Machine), machine.store.WellFormed →
        let start : Machine := { machine with store := machine.store.newStart.2 }
        ∃ v' later, run depth machine.store.newStart.1 (v.text store) start = (.ok v', later) ∧
          later.output = start.output ∧ later.room = start.room ∧
          later.store.scopes = start.store.scopes ∧
          v'.Denotes later.store d ∧ v'.text later.store = v.text store := by
  refine ⟨fun key => isWord_iff_scan, fun store v d hstore h hplain depth machine hmachine => ?_⟩
  intro start
  have hs : start.store.MeansConstants machine.store.newStart.1 :=
    Store.meansConstants_newStart machine.store
  have htext : v.text store = d.text := h.text_eq hstore
  obtain ⟨v', later, hrun, hgrows, hscopes, houtput, hroom, hv'⟩ :=
    Datum.run_text hplain h hs depth
  refine ⟨v', later, htext ▸ hrun, houtput, hroom, hscopes, hv', ?_⟩
  rw [hv'.text_eq (hgrows.wellFormed hmachine.newStart), htext]

/-- An object whose keys are the names of constants, in a store where it holds another one. -/
theorem plain_data_readable_constants :
    let store := ((Store.empty.newObject .empty).2.newObject
      (Table.ofList [("true", .object 0), ("null", .number 5)])).2
    let d : Datum := .object [("null", .number 5), ("true", .object [])]
    store.WellFormed ∧ (Value.object 1).Denotes store d ∧ d.Plain ∧
      (Value.object 1).text store = "\x7b null: 5, true: \x7b\x7d \x7d" ∧
      ∃ v later, run 0 0 "\x7b null: 5, true: \x7b\x7d \x7d" (Machine.start none).2
          = (.ok v, later) ∧
        later.output = #[] ∧ later.store.scopes = (Machine.start none).2.store.scopes ∧
        v.Denotes later.store d ∧ v.text later.store = "\x7b null: 5, true: \x7b\x7d \x7d" := by
  intro store d
  have hinner : (Store.empty.newObject .empty).2.WellFormed :=
    Store.wellFormed_empty.newObject nofun
  have hstore : store.WellFormed := by
    refine hinner.newObject fun key v hv => ?_
    have hmem := Table.mem_of_find?_ofList hv
    simp only [List.mem_cons, List.not_mem_nil, or_false, Prod.mk.injEq] at hmem
    rcases hmem with ⟨-, rfl⟩ | ⟨-, rfl⟩
    · exact fun p hp => Option.some_inj.1 hp ▸ by decide
    · exact nofun
  have hdenotes : (Value.object 1).Denotes store d :=
    .object (by decide) (.cons (.number 5) (.cons (.object (by decide) .nil) .nil))
  have hplain : d.Plain :=
    ⟨isWord_constant (by decide), show Number.IsWhole 5 by decide, isWord_constant (by decide),
      trivial, trivial⟩
  have htext : (Value.object 1).text store = "\x7b null: 5, true: \x7b\x7d \x7d" := by
    decide
  obtain ⟨v, later, hrun, houtput, -, hscopes, hv, hsame⟩ :=
    plain_data_readable.2 store (.object 1) d hstore hdenotes hplain 0 (Machine.empty none)
      Store.wellFormed_empty
  rw [htext] at hrun hsame
  exact ⟨hstore, hdenotes, hplain, htext, v, later, hrun, houtput, hscopes, hv, hsame⟩

end Scriptlet
