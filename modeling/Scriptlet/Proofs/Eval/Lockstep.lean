/-
**Two runs in lockstep.**

Two stores may be the same in a part that refers to nothing outside of it, and differ in all else.
A program that starts inside that part does the same in both: it finds the same there, what it
creates it creates in the same order, and the rest of either store is neither seen nor touched.
Places that are created get different numbers, as the stores may be of different sizes, so they
correspond by renaming.

Main definitions:

* `Scriptlet.Relocation` — other numbers for places, and for the values that refer to them;
* `Scriptlet.Twins` — **two stores with a part in common**;
* `Scriptlet.Twins.Known` — the common part, with what was created since;
* `Scriptlet.Twins.Lockstep` — the stores of two runs that have come equally far.

Main results:

* `Scriptlet.Twins.Lockstep.start` — the runs start in lockstep;
* `Scriptlet.Twins.Lockstep.bind`, `Scriptlet.Twins.Lockstep.newScope`,
  `Scriptlet.Twins.Lockstep.newObject` — **each operation keeps them so**;
* `Scriptlet.Twins.Lockstep.lookUp`, `Scriptlet.Twins.Lockstep.declare`,
  `Scriptlet.Twins.Lockstep.assign` — names mean the same in both;
* `Scriptlet.Twins.Lockstep.text_eq` — values that correspond have the same text.
-/

import Mathlib.Data.Nat.Basic
import Scriptlet.Proofs.Eval.Correspondence
import Scriptlet.Proofs.Eval.Reach

set_option relaxedAutoImplicit false
set_option autoImplicit false

namespace Scriptlet

/-! ### Lists and maps that are alike -/

section Alike

variable {α β γ δ : Type} {R : α → β → Prop}

theorem exists_of_rel_some {a : α} {found : Option β} (h : Option.Rel R (some a) found) :
    ∃ b, found = some b ∧ R a b := by
  cases h with
  | some hab => exact ⟨_, rfl, hab⟩

theorem rel_imp {S : α → β → Prop} {found : Option α} {found' : Option β}
    (h : Option.Rel R found found') (hRS : ∀ a b, R a b → S a b) : Option.Rel S found found' := by
  cases h with
  | none => exact .none
  | some hab => exact .some (hRS _ _ hab)

theorem rel_isSome {found : Option α} {found' : Option β} (h : Option.Rel R found found') :
    found.isSome = found'.isSome := by
  cases h with
  | none => rfl
  | some _ => rfl

theorem eq_map_of_rel {f : α → β} {found : Option α} {found' : Option β}
    (h : Option.Rel R found found') (hR : ∀ a b, R a b → b = f a) : found' = found.map f := by
  cases h with
  | none => rfl
  | some hab => exact congrArg some (hR _ _ hab)

/-- The images of related elements are the same, if they are for each of them. -/
theorem map_eq_map {as : List α} {bs : List β} (h : List.Forall₂ R as bs) {f : α → γ} {g : β → γ}
    (hfg : ∀ a ∈ as, ∀ b, R a b → f a = g b) : as.map f = bs.map g := by
  induction h with
  | nil => rfl
  | @cons a b as bs hab _ ih =>
      rw [List.map_cons, List.map_cons, hfg a List.mem_cons_self b hab,
        ih fun a ha => hfg a (List.mem_cons_of_mem _ ha)]

/-- The first elements that are looked for are related if the tests agree. -/
theorem rel_find? {as : List α} {bs : List β} (h : List.Forall₂ R as bs) {p : α → Bool}
    {q : β → Bool} (hpq : ∀ a b, R a b → p a = q b) : Option.Rel R (as.find? p) (bs.find? q) := by
  induction h with
  | nil => exact .none
  | @cons a b as bs hab _ ih =>
      rw [List.find?_cons, List.find?_cons, hpq a b hab]
      split
      · exact .some hab
      · exact ih

/-- What is found first is related if what is found in each place is. -/
theorem rel_findSome? {S : γ → δ → Prop} {as : List α} {bs : List β} (h : List.Forall₂ R as bs)
    {f : α → Option γ} {g : β → Option δ} (hfg : ∀ a b, R a b → Option.Rel S (f a) (g b)) :
    Option.Rel S (as.findSome? f) (bs.findSome? g) := by
  induction h with
  | nil => exact .none
  | @cons a b as bs hab _ ih =>
      rw [List.findSome?_cons, List.findSome?_cons]
      have hrel := hfg a b hab
      generalize f a = found, g b = found' at hrel
      cases hrel with
      | none => exact ih
      | some hcd => exact .some hcd

/-- Entries with the same names, and with values that are related. -/
abbrev EntriesAlike (R : α → β → Prop) (ps : List (String × α)) (qs : List (String × β)) : Prop :=
  List.Forall₂ (fun p q => p.1 = q.1 ∧ R p.2 q.2) ps qs

theorem EntriesAlike.insertEntry {ps : List (String × α)} {qs : List (String × β)}
    (h : EntriesAlike R ps qs) (name : String) {a : α} {b : β} (hab : R a b) :
    EntriesAlike R (insertEntry name a ps) (insertEntry name b qs) := by
  induction h with
  | nil => exact .cons ⟨rfl, hab⟩ .nil
  | @cons p q ps qs hpq hmore ih =>
      obtain ⟨key, old⟩ := p
      obtain ⟨key', old'⟩ := q
      obtain ⟨rfl, hold⟩ : key = key' ∧ R old old' := hpq
      rw [Scriptlet.insertEntry, Scriptlet.insertEntry]
      split
      · exact .cons ⟨rfl, hab⟩ (.cons ⟨rfl, hold⟩ hmore)
      · split
        · exact .cons ⟨rfl, hold⟩ ih
        · exact .cons ⟨rfl, hab⟩ hmore

theorem EntriesAlike.findEntry {ps : List (String × α)} {qs : List (String × β)}
    (h : EntriesAlike R ps qs) (name : String) :
    Option.Rel R (findEntry name ps) (findEntry name qs) := by
  induction h with
  | nil => exact .none
  | @cons p q ps qs hpq _ ih =>
      obtain ⟨key, a⟩ := p
      obtain ⟨key', b⟩ := q
      obtain ⟨rfl, hab⟩ : key = key' ∧ R a b := hpq
      rw [Scriptlet.findEntry, Scriptlet.findEntry]
      split
      · exact .some hab
      · exact ih

/-- Maps are alike if they are made of entries that are. -/
theorem EntriesAlike.ofList {ps : List (String × α)} {qs : List (String × β)}
    (h : EntriesAlike R ps qs) :
    EntriesAlike R (Table.ofList ps).entries (Table.ofList qs).entries := by
  have hfold : ∀ (s : Table α) (t : Table β), EntriesAlike R s.entries t.entries →
      EntriesAlike R (ps.foldl (fun table entry => table.insert entry.1 entry.2) s).entries
        (qs.foldl (fun table entry => table.insert entry.1 entry.2) t).entries := by
    induction h with
    | nil => exact fun s t hst => hst
    | @cons p q ps qs hpq _ ih =>
        intro s t hst
        refine ih (s.insert p.1 p.2) (t.insert q.1 q.2) ?_
        rw [hpq.1]
        exact hst.insertEntry q.1 hpq.2
  exact hfold _ _ .nil

end Alike

/-! ### Relocation -/

/-- The numbers below the first bound are kept, and those above it are moved to the second one. -/
def shifted (n n' k : Nat) : Nat := if k < n then k else k - n + n'

theorem shifted_of_lt {n n' k : Nat} (h : k < n) : shifted n n' k = k := if_pos h

theorem shifted_add (n n' k : Nat) : shifted n n' (n + k) = n' + k := by
  unfold shifted
  rw [if_neg (by omega)]
  omega

/-- The order is kept, where what is kept stays below the second bound. -/
theorem shifted_lt_shifted {n n' j k : Nat} (h : j < k) (hj : j < n → j < n') :
    shifted n n' j < shifted n n' k := by
  unfold shifted
  split <;> split <;> omega

theorem shifted_inj {n n' j k : Nat} (hj : j < n → j < n') (hk : k < n → k < n')
    (h : shifted n n' j = shifted n n' k) : j = k := by
  rcases Nat.lt_trichotomy j k with hlt | heq | hlt
  · exact absurd h (Nat.ne_of_lt (shifted_lt_shifted hlt hj))
  · exact heq
  · exact absurd h.symm (Nat.ne_of_lt (shifted_lt_shifted hlt hk))

/-- **A number that is known**: one of some old ones, or one of so many from a bound on. -/
def KnownFrom (old : Nat → Prop) (n count k : Nat) : Prop := old k ∨ n ≤ k ∧ k < n + count

namespace KnownFrom

variable {old : Nat → Prop} {n n' count count' k : Nat}

theorem mono (h : KnownFrom old n count k) (hcount : count ≤ count') :
    KnownFrom old n count' k := h.imp_right fun h => ⟨h.1, by omega⟩

/-- Below the bound only the old numbers are known. -/
theorem old_of_lt (h : KnownFrom old n count k) (hk : k < n) : old k :=
  h.resolve_right fun h => Nat.not_lt.2 h.1 hk

theorem old_of_zero (h : KnownFrom old n 0 k) : old k :=
  h.resolve_right fun h => Nat.not_lt.2 h.1 h.2

theorem lt (h : KnownFrom old n count k) (hold : old k → k < n) : k < n + count := by
  rcases h with h | h
  · exact Nat.lt_add_right _ (hold h)
  · exact h.2

theorem shifted_lt (h : KnownFrom old n count k) (hold : old k → k < n) (hold' : old k → k < n') :
    shifted n n' k < n' + count := by
  rcases h with h | h
  · rw [shifted_of_lt (hold h)]
    exact Nat.lt_add_right _ (hold' h)
  · obtain ⟨k, rfl⟩ := Nat.exists_eq_add_of_le h.1
    rw [shifted_add]
    omega

/-- The next number is known from then on. -/
theorem next : KnownFrom old n (count + 1) (n + count) :=
  Or.inr ⟨Nat.le_add_right _ _, Nat.lt_succ_self _⟩

/-- What is known from then on was known before, or it is the next number. -/
theorem of_succ (h : KnownFrom old n (count + 1) k) (hold : old k → k < n)
    (hold' : old k → k < n') :
    (k = n + count ∧ shifted n n' k = n' + count) ∨
      (KnownFrom old n count k ∧ k ≠ n + count ∧ shifted n n' k ≠ n' + count) := by
  by_cases hnext : k = n + count
  · exact Or.inl ⟨hnext, hnext ▸ shifted_add _ _ _⟩
  · have hbefore : KnownFrom old n count k := h.imp_right fun h => ⟨h.1, by omega⟩
    exact Or.inr ⟨hbefore, hnext, Nat.ne_of_lt (hbefore.shifted_lt hold hold')⟩

end KnownFrom

/-- Other numbers for the places of scopes and objects. -/
structure Relocation where
  /-- The number of a scope. -/
  scope : Nat → Nat
  /-- The number of an object. -/
  object : Nat → Nat

/-- A value, with other numbers for the places that it refers to. -/
def Relocation.value (r : Relocation) : Value → Value
  | .object i => .object (r.object i)
  | .function f => .function { f with scope := r.scope f.scope }
  | v => v

/-- **What is created from one store on, renamed** to what is created from the other one on. -/
def Store.relocation (a b : Store) : Relocation where
  scope := shifted a.scopes.size b.scopes.size
  object := shifted a.objects.size b.objects.size

/-! ### Two stores with a part in common -/

/-- **Two stores with a part in common**, which refers to nothing outside of it. -/
structure Twins where
  /-- The one store. -/
  first : Store
  /-- The other store. -/
  second : Store
  /-- The part that they have in common. -/
  shared : Place → Prop
  /-- The first store holds together. -/
  wellFormed : first.WellFormed
  /-- The common part is there in the first store. -/
  has_first : ∀ {p : Place}, shared p → first.Has p
  /-- The common part is there in the second store. -/
  has_second : ∀ {p : Place}, shared p → second.Has p
  /-- The common part refers to nothing outside of it. -/
  closed : ∀ {p q : Place}, shared p → first.Points p q → shared q
  /-- Its scopes are the same. -/
  scope_eq : ∀ {s : Nat}, shared (.scope s) → second.scope s = first.scope s
  /-- Its objects are the same. -/
  object_eq : ∀ {i : Nat}, shared (.object i) → second.object i = first.object i

namespace Twins

variable {c : Twins} {w w' : Nat × Nat} {x y : Store}

/-- How places of the first run are called in the second one. -/
abbrev relocation (c : Twins) : Relocation := c.first.relocation c.second

/-- **The common part, with what was created since**: so many scopes, and so many objects. -/
def Known (c : Twins) (w : Nat × Nat) : Place → Prop
  | .scope s => KnownFrom (fun t => c.shared (.scope t)) c.first.scopes.size w.1 s
  | .object i => KnownFrom (fun j => c.shared (.object j)) c.first.objects.size w.2 i

theorem known_scope {s : Nat} : c.Known w (.scope s)
    ↔ KnownFrom (fun t => c.shared (.scope t)) c.first.scopes.size w.1 s := Iff.rfl

theorem known_object {i : Nat} : c.Known w (.object i)
    ↔ KnownFrom (fun j => c.shared (.object j)) c.first.objects.size w.2 i := Iff.rfl

theorem Known.mono {p : Place} (h : c.Known w p) (hw : w ≤ w') : c.Known w' p := by
  cases p with
  | scope s => exact known_scope.2 ((known_scope.1 h).mono hw.1)
  | object i => exact known_object.2 ((known_object.1 h).mono hw.2)

/-- What was there at the start is known only if it is in the common part. -/
theorem Known.shared {p : Place} (h : c.Known w p) (hp : c.first.Has p) : c.shared p := by
  cases p with
  | scope s => exact (known_scope.1 h).old_of_lt hp
  | object i => exact (known_object.1 h).old_of_lt hp

theorem known_of_shared {p : Place} (h : c.shared p) : c.Known w p := by
  cases p with
  | scope s => exact Or.inl h
  | object i => exact Or.inl h

/-- At the start, just the common part is known. -/
theorem shared_of_known_start {p : Place} (h : c.Known (0, 0) p) : c.shared p := by
  cases p with
  | scope s => exact (known_scope.1 h).old_of_zero
  | object i => exact (known_object.1 h).old_of_zero

/-- Where the renaming keeps a number that is known, it is one of the other store, too. -/
theorem Known.scope_lt {s : Nat} (h : c.Known w (.scope s)) (hs : s < c.first.scopes.size) :
    s < c.second.scopes.size := c.has_second (h.shared hs)

theorem Known.object_lt {i : Nat} (h : c.Known w (.object i)) (hi : i < c.first.objects.size) :
    i < c.second.objects.size := c.has_second (h.shared hi)

/-- The renaming leaves the common part as it is. -/
theorem relocation_scope {s : Nat} (h : c.shared (.scope s)) : c.relocation.scope s = s :=
  shifted_of_lt (c.has_first h)

theorem relocation_object {i : Nat} (h : c.shared (.object i)) : c.relocation.object i = i :=
  shifted_of_lt (c.has_first h)

theorem relocation_scope_inj {s t : Nat} (hs : c.Known w (.scope s)) (ht : c.Known w (.scope t)) :
    c.relocation.scope s = c.relocation.scope t ↔ s = t := by
  refine ⟨fun h => shifted_inj hs.scope_lt ht.scope_lt h, fun h => ?_⟩
  rw [h]

/-! ### The pairing of the two runs -/

/-- **What corresponds in the two runs**: what is known, and what the renaming calls it. -/
def pairing (c : Twins) : Pairing where
  World := Nat × Nat
  order := inferInstance
  scope w s t := c.Known w (.scope s) ∧ c.relocation.scope s = t
  object w i j := c.Known w (.object i) ∧ c.relocation.object i = j
  scope_mono hw h := ⟨h.1.mono hw, h.2⟩
  object_mono hw h := ⟨h.1.mono hw, h.2⟩

/-- Values that correspond. -/
abbrev Values (c : Twins) (w : Nat × Nat) : Value → Value → Prop := c.pairing.Values w

/-- What corresponds to a value of the first run is the value, renamed. -/
theorem Values.eq_value {v v' : Value} (h : c.Values w v v') : v' = c.relocation.value v := by
  cases h with
  | object h => exact congrArg Value.object h.2.symm
  | @function name parameters body s t h =>
      exact congrArg (fun t => Value.function ⟨name, parameters, body, t⟩) h.2.symm
  | _ => rfl

/-- What a value refers to is known if it corresponds to anything. -/
theorem Values.known {v v' : Value} (h : c.Values w v v') {p : Place} (hp : v.place? = some p) :
    c.Known w p := by
  cases h with
  | object h => exact Option.some_inj.1 hp ▸ h.1
  | function h => exact Option.some_inj.1 hp ▸ h.1
  | _ => cases hp

/-- A value that refers to the common part corresponds to itself. -/
theorem values_self {v : Value} (h : ∀ p, v.place? = some p → c.shared p) :
    c.Values w v v := by
  cases v with
  | null => exact .null
  | number x => exact .number x
  | boolean b => exact .boolean b
  | native f => exact .native f
  | object i =>
      have hi := h _ rfl
      exact .object (c := c.pairing) ⟨Or.inl hi, relocation_object hi⟩
  | function f =>
      have hs := h _ rfl
      exact .function (c := c.pairing) ⟨Or.inl hs, relocation_scope hs⟩

/-- Bindings that correspond. -/
def Bindings (c : Twins) (w : Nat × Nat) (b b' : Binding) : Prop :=
  b.constant = b'.constant ∧ c.Values w b.value b'.value

/-! ### Stores in lockstep -/

/-- **The stores of two runs that have come equally far**: as much was created in both, what is
known is the same up to renaming, and the rest of the first store is as it was. -/
structure Lockstep (c : Twins) (w : Nat × Nat) (x y : Store) : Prop where
  /-- As many scopes were created. -/
  scopes_size : x.scopes.size = c.first.scopes.size + w.1 ∧
    y.scopes.size = c.second.scopes.size + w.1
  /-- As many objects were created. -/
  objects_size : x.objects.size = c.first.objects.size + w.2 ∧
    y.objects.size = c.second.objects.size + w.2
  /-- Names are bound to values that correspond. -/
  bindings : ∀ {s : Nat}, c.Known w (.scope s) → ∀ name,
    Option.Rel (c.Bindings w) (x.binding? s name) (y.binding? (c.relocation.scope s) name)
  /-- The scopes around scopes correspond, and are older. -/
  parents : ∀ {s : Nat}, c.Known w (.scope s) →
    Option.Rel (fun p q => c.pairing.scope w p q ∧ p < s) (x.scope s).parent
      (y.scope (c.relocation.scope s)).parent
  /-- Objects hold values that correspond. -/
  entries : ∀ {i : Nat}, c.Known w (.object i) →
    c.pairing.Entries w (x.object i).entries (y.object (c.relocation.object i)).entries
  /-- Objects hold older ones. -/
  held_lt : ∀ {i : Nat}, c.Known w (.object i) → ∀ {key : String} {j : Nat},
    (x.object i).find? key = some (.object j) → j < i
  /-- No other scope has changed. -/
  scope_eq : ∀ {s : Nat}, s < c.first.scopes.size → ¬ c.shared (.scope s) →
    x.scope s = c.first.scope s
  /-- No object has changed. -/
  object_eq : ∀ {i : Nat}, i < c.first.objects.size → x.object i = c.first.object i

namespace Lockstep

/-- **The runs start in lockstep.** -/
theorem start : c.Lockstep (0, 0) c.first c.second where
  scopes_size := ⟨rfl, rfl⟩
  objects_size := ⟨rfl, rfl⟩
  bindings {s} hs name := by
    have hshared := shared_of_known_start hs
    rw [relocation_scope hshared, Store.binding?, Store.binding?, c.scope_eq hshared]
    cases hb : (c.first.scope s).bindings.find? name with
    | none => exact .none
    | some b => exact .some ⟨rfl, values_self fun p hp => c.closed hshared (.bound hb hp)⟩
  parents {s} hs := by
    have hshared := shared_of_known_start hs
    rw [relocation_scope hshared, c.scope_eq hshared]
    cases hp : (c.first.scope s).parent with
    | none => exact .none
    | some t =>
        have ht := c.closed hshared (.parent hp)
        exact .some ⟨⟨Or.inl ht, relocation_scope ht⟩, c.wellFormed.parent_lt hp⟩
  entries {i} hi := by
    have hshared := shared_of_known_start hi
    rw [relocation_object hshared, c.object_eq hshared]
    refine List.forall₂_same.2 fun entry hentry => ⟨rfl, values_self fun p hp => ?_⟩
    exact c.closed hshared (.held (Table.find?_of_mem hentry) hp)
  held_lt _ _ _ hheld := c.wellFormed.held_lt hheld
  scope_eq _ _ := rfl
  object_eq _ := rfl

/-- What is known is there in the first run. -/
theorem known_has (h : c.Lockstep w x y) {p : Place} (hp : c.Known w p) : x.Has p := by
  cases p with
  | scope s => exact Nat.lt_of_lt_of_eq ((known_scope.1 hp).lt c.has_first) h.scopes_size.1.symm
  | object i => exact Nat.lt_of_lt_of_eq ((known_object.1 hp).lt c.has_first) h.objects_size.1.symm

/-- What is known is there in the second run, by its new number. -/
theorem relocation_scope_lt (h : c.Lockstep w x y) {s : Nat} (hs : c.Known w (.scope s)) :
    c.relocation.scope s < y.scopes.size :=
  Nat.lt_of_lt_of_eq ((known_scope.1 hs).shifted_lt c.has_first c.has_second) h.scopes_size.2.symm

theorem relocation_object_lt (h : c.Lockstep w x y) {i : Nat} (hi : c.Known w (.object i)) :
    c.relocation.object i < y.objects.size :=
  Nat.lt_of_lt_of_eq ((known_object.1 hi).shifted_lt c.has_first c.has_second) h.objects_size.2.symm

/-- What objects hold corresponds. -/
theorem held (h : c.Lockstep w x y) {i : Nat} (hi : c.Known w (.object i)) (key : String) :
    Option.Rel (c.Values w) ((x.object i).find? key)
      ((y.object (c.relocation.object i)).find? key) :=
  EntriesAlike.findEntry (h.entries hi) key

/-- What the known places refer to is known. -/
theorem known_of_points (h : c.Lockstep w x y) {p q : Place} (hp : c.Known w p)
    (hpq : x.Points p q) : c.Known w q := by
  cases hpq with
  | parent hparent =>
      have hrel := h.parents hp
      rw [hparent] at hrel
      obtain ⟨_, _, hknown, _⟩ := exists_of_rel_some hrel
      exact hknown.1
  | @bound s name b q hb hq =>
      have hrel := h.bindings hp name
      rw [hb] at hrel
      obtain ⟨_, _, _, hvalue⟩ := exists_of_rel_some hrel
      exact hvalue.known hq
  | @held i key v q hheld hq =>
      have hrel := h.held hp key
      rw [hheld] at hrel
      obtain ⟨_, _, hvalue⟩ := exists_of_rel_some hrel
      exact hvalue.known hq

/-! ### Operations in lockstep -/

/-- **Binding a name in both runs.** -/
theorem bind (h : c.Lockstep w x y) {s : Nat} (hs : c.Known w (.scope s)) {v v' : Value}
    (hv : c.Values w v v') (name : String) (constant : Bool) :
    c.Lockstep w (x.bind s name ⟨v, constant⟩)
      (y.bind (c.relocation.scope s) name ⟨v', constant⟩) where
  scopes_size := by simpa using h.scopes_size
  objects_size := h.objects_size
  bindings {t} ht other := by
    have hlt : s < x.scopes.size := h.known_has hs
    have hlt' : c.relocation.scope s < y.scopes.size := h.relocation_scope_lt hs
    have hinj := relocation_scope_inj hs ht
    rw [Store.binding?_bind, Store.binding?_bind]
    by_cases hsame : s = t ∧ name = other
    · rw [if_pos ⟨⟨hsame.1, hlt⟩, hsame.2⟩, if_pos ⟨⟨hinj.2 hsame.1, hlt'⟩, hsame.2⟩]
      exact .some ⟨rfl, hv⟩
    · rw [if_neg fun h => hsame ⟨h.1.1, h.2⟩, if_neg fun h => hsame ⟨hinj.1 h.1.1, h.2⟩]
      exact h.bindings ht other
  parents ht := by simpa using h.parents ht
  entries hi := h.entries hi
  held_lt hi := h.held_lt hi
  scope_eq {t} ht hother := by
    rw [Store.scope_bind, if_neg]
    · exact h.scope_eq ht hother
    · rintro ⟨rfl, -⟩
      exact hother (hs.shared ht)
  object_eq hi := h.object_eq hi

theorem bindings_mono (h : c.Lockstep w x y) (hw : w ≤ w') {s : Nat}
    (hs : c.Known w (.scope s)) (name : String) :
    Option.Rel (c.Bindings w') (x.binding? s name) (y.binding? (c.relocation.scope s) name) :=
  rel_imp (h.bindings hs name) fun _ _ hb => ⟨hb.1, hb.2.mono hw⟩

theorem parents_mono (h : c.Lockstep w x y) (hw : w ≤ w') {s : Nat}
    (hs : c.Known w (.scope s)) :
    Option.Rel (fun p q => c.pairing.scope w' p q ∧ p < s) (x.scope s).parent
      (y.scope (c.relocation.scope s)).parent :=
  rel_imp (h.parents hs) fun _ _ hp => ⟨c.pairing.scope_mono hw hp.1, hp.2⟩

theorem entries_mono {ps qs : List (String × Value)} (h : c.pairing.Entries w ps qs)
    (hw : w ≤ w') : c.pairing.Entries w' ps qs :=
  h.imp fun _ _ hpq => ⟨hpq.1, hpq.2.mono hw⟩

/-- The scopes that are created correspond. -/
theorem scope_size (h : c.Lockstep w x y) :
    c.pairing.scope (w.1 + 1, w.2) x.scopes.size y.scopes.size := by
  rw [h.scopes_size.1, h.scopes_size.2]
  exact ⟨known_scope.2 .next, shifted_add _ _ _⟩

/-- The objects that are created correspond. -/
theorem object_size (h : c.Lockstep w x y) :
    c.pairing.object (w.1, w.2 + 1) x.objects.size y.objects.size := by
  rw [h.objects_size.1, h.objects_size.2]
  exact ⟨known_object.2 .next, shifted_add _ _ _⟩

/-- A scope that is known after one was created was known before, or it is the new one. -/
theorem known_newScope (h : c.Lockstep w x y) {s : Nat} (hs : c.Known (w.1 + 1, w.2) (.scope s)) :
    (s = x.scopes.size ∧ c.relocation.scope s = y.scopes.size) ∨
      (c.Known w (.scope s) ∧ s ≠ x.scopes.size ∧ c.relocation.scope s ≠ y.scopes.size) := by
  rw [h.scopes_size.1, h.scopes_size.2]
  exact (known_scope.1 hs).of_succ c.has_first c.has_second

/-- An object that is known after one was created was known before, or it is the new one. -/
theorem known_newObject (h : c.Lockstep w x y) {i : Nat}
    (hi : c.Known (w.1, w.2 + 1) (.object i)) :
    (i = x.objects.size ∧ c.relocation.object i = y.objects.size) ∨
      (c.Known w (.object i) ∧ i ≠ x.objects.size ∧ c.relocation.object i ≠ y.objects.size) := by
  rw [h.objects_size.1, h.objects_size.2]
  exact (known_object.1 hi).of_succ c.has_first c.has_second

/-- **Creating a scope in both runs.** -/
theorem newScope (h : c.Lockstep w x y) {s : Nat} (hs : c.Known w (.scope s)) :
    c.Lockstep (w.1 + 1, w.2) (x.newScope (some s)).2
      (y.newScope (some (c.relocation.scope s))).2 := by
  have hw : w ≤ (w.1 + 1, w.2) := ⟨Nat.le_succ _, Nat.le_refl _⟩
  have hsize := h.scopes_size.1
  constructor
  case scopes_size =>
    rw [Store.size_newScope, Store.size_newScope, h.scopes_size.1, h.scopes_size.2]
    exact ⟨Nat.add_assoc .., Nat.add_assoc ..⟩
  case objects_size =>
    exact h.objects_size
  case bindings =>
    intro t ht name
    rw [Store.binding?, Store.binding?, Store.scope_newScope, Store.scope_newScope]
    rcases h.known_newScope ht with ⟨hx, hy⟩ | ⟨hold, hx, hy⟩
    · rw [if_pos hx, if_pos hy]
      exact .none
    · rw [if_neg hx, if_neg hy]
      exact h.bindings_mono hw hold name
  case parents =>
    intro t ht
    rw [Store.scope_newScope, Store.scope_newScope]
    rcases h.known_newScope ht with ⟨hx, hy⟩ | ⟨hold, hx, hy⟩
    · rw [if_pos hx, if_pos hy]
      exact .some ⟨⟨hs.mono hw, rfl⟩, hx ▸ h.known_has hs⟩
    · rw [if_neg hx, if_neg hy]
      exact h.parents_mono hw hold
  case entries =>
    exact fun hi => entries_mono (h.entries hi) hw
  case held_lt =>
    exact fun hi => h.held_lt hi
  case scope_eq =>
    intro t ht hother
    rw [Store.scope_newScope, if_neg (by omega)]
    exact h.scope_eq ht hother
  case object_eq =>
    exact fun hi => h.object_eq hi

/-- **Creating an object in both runs.** -/
theorem newObject (h : c.Lockstep w x y) {ps qs : List (String × Value)}
    (hps : c.pairing.Entries w ps qs) :
    c.Lockstep (w.1, w.2 + 1) (x.newObject (Table.ofList ps)).2
      (y.newObject (Table.ofList qs)).2 := by
  have hw : w ≤ (w.1, w.2 + 1) := ⟨Nat.le_refl _, Nat.le_succ _⟩
  have hsize := h.objects_size.1
  have hmade : EntriesAlike (c.Values w) (Table.ofList ps).entries (Table.ofList qs).entries :=
    EntriesAlike.ofList hps
  constructor
  case scopes_size =>
    exact h.scopes_size
  case objects_size =>
    simp only [Store.newObject, Array.size_push, h.objects_size.1, h.objects_size.2]
    exact ⟨Nat.add_assoc .., Nat.add_assoc ..⟩
  case bindings =>
    exact fun ht name => h.bindings_mono hw ht name
  case parents =>
    exact fun ht => h.parents_mono hw ht
  case entries =>
    intro i hi
    rw [Store.object_newObject, Store.object_newObject]
    rcases h.known_newObject hi with ⟨hx, hy⟩ | ⟨hold, hx, hy⟩
    · rw [if_pos hx, if_pos hy]
      exact entries_mono hmade hw
    · rw [if_neg hx, if_neg hy]
      exact entries_mono (h.entries hold) hw
  case held_lt =>
    intro i hi key j hheld
    rw [Store.object_newObject] at hheld
    rcases h.known_newObject hi with ⟨hx, hy⟩ | ⟨hold, hx, hy⟩
    · -- The objects that a new object holds are known, so they are older.
      rw [if_pos hx] at hheld
      have hrel : Option.Rel (c.Values w) ((Table.ofList ps).find? key)
          ((Table.ofList qs).find? key) := hmade.findEntry key
      rw [hheld] at hrel
      obtain ⟨_, _, hvalue⟩ := exists_of_rel_some hrel
      exact hx ▸ h.known_has (hvalue.known rfl)
    · rw [if_neg hx] at hheld
      exact h.held_lt hold hheld
  case scope_eq =>
    exact fun ht hother => h.scope_eq ht hother
  case object_eq =>
    intro i hi
    rw [Store.object_newObject, if_neg (by omega)]
    exact h.object_eq hi

/-! ### Looking names up in lockstep -/

/-- A scope and its ancestors correspond. -/
theorem chainFrom (h : c.Lockstep w x y) {s : Nat} (hs : c.Known w (.scope s)) {steps steps' : Nat}
    (hsteps : s ≤ steps) (hsteps' : c.relocation.scope s ≤ steps') :
    List.Forall₂ (c.pairing.scope w) (x.chainFrom steps s)
      (y.chainFrom steps' (c.relocation.scope s)) := by
  have hself : c.pairing.scope w s (c.relocation.scope s) := ⟨hs, rfl⟩
  have hparents := h.parents hs
  generalize hp : (x.scope s).parent = parent, hp' : (y.scope _).parent = parent' at hparents
  cases hparents with
  | none =>
      rw [Store.chainFrom_of_parent_eq_none hp, Store.chainFrom_of_parent_eq_none hp']
      exact .cons hself .nil
  | @some p q hpq =>
      obtain ⟨⟨hknown, rfl⟩, hlt⟩ := hpq
      have hlt' : c.relocation.scope p < c.relocation.scope s :=
        shifted_lt_shifted hlt hknown.scope_lt
      obtain ⟨steps, rfl⟩ : ∃ k, steps = k + 1 := ⟨steps - 1, by omega⟩
      obtain ⟨steps', rfl⟩ : ∃ k, steps' = k + 1 := ⟨steps' - 1, by omega⟩
      rw [Store.chainFrom_of_parent_lt hp hlt, Store.chainFrom_of_parent_lt hp' hlt']
      exact .cons hself (h.chainFrom hknown (by omega) (by omega))
termination_by s

theorem chain (h : c.Lockstep w x y) {s : Nat} (hs : c.Known w (.scope s)) :
    List.Forall₂ (c.pairing.scope w) (x.chain s) (y.chain (c.relocation.scope s)) :=
  h.chainFrom hs (Nat.le_refl _) (Nat.le_refl _)

theorem contains_eq (h : c.Lockstep w x y) {s t : Nat} (hst : c.pairing.scope w s t)
    (name : String) : x.contains s name = y.contains t name := by
  obtain ⟨hs, rfl⟩ := hst
  exact rel_isSome (h.bindings hs name)

/-- Names are looked up with results that correspond. -/
theorem lookUp (h : c.Lockstep w x y) {s : Nat} (hs : c.Known w (.scope s)) (name : String) :
    Ends (c.Values w) (x.lookUp s name) (y.lookUp (c.relocation.scope s) name) := by
  have hrel := rel_findSome? (h.chain hs) (S := c.Bindings w)
    (f := fun owner => x.binding? owner name) (g := fun owner => y.binding? owner name)
    fun s t hst => hst.2 ▸ h.bindings hst.1 name
  rw [Store.lookUp, Store.lookUp]
  generalize (x.chain s).findSome? _ = found, (y.chain _).findSome? _ = found' at hrel
  cases hrel with
  | none => exact .error _
  | some hb => exact .ok hb.2

/-- Names mean scopes that correspond. -/
theorem resolve (h : c.Lockstep w x y) {s : Nat} (hs : c.Known w (.scope s)) (name : String) :
    Ends (c.pairing.scope w) (x.resolve s name) (y.resolve (c.relocation.scope s) name) := by
  have hrel := rel_find? (h.chain hs) (p := fun owner => x.contains owner name)
    (q := fun owner => y.contains owner name) fun s t hst => h.contains_eq hst name
  rw [Store.resolve, Store.resolve]
  generalize (x.chain s).find? _ = found, (y.chain _).find? _ = found' at hrel
  cases hrel with
  | none => exact .error _
  | some hst => exact .ok hst

/-- Names are declared in both runs, or in none. -/
theorem declare (h : c.Lockstep w x y) {s : Nat} (hs : c.Known w (.scope s)) {v v' : Value}
    (hv : c.Values w v v') (name : String) (constant : Bool) :
    Ends (c.Lockstep w) (x.declare s name v constant)
      (y.declare (c.relocation.scope s) name v' constant) := by
  rw [Store.declare, Store.declare, h.contains_eq ⟨hs, rfl⟩]
  split
  · exact .error _
  · exact .ok (h.bind hs hv name constant)

/-- Names are assigned to in both runs, or in none. -/
theorem assign (h : c.Lockstep w x y) {s : Nat} (hs : c.Known w (.scope s)) {v v' : Value}
    (hv : c.Values w v v') (name : String) :
    Ends (c.Lockstep w) (x.assign s name v) (y.assign (c.relocation.scope s) name v') := by
  rw [Store.assign, Store.assign]
  have hchain := h.chain hs
  generalize x.chain s = scopes, y.chain _ = scopes' at hchain
  induction hchain with
  | nil => exact .error _
  | @cons s t ss ts hst _ ih =>
      obtain ⟨hs, rfl⟩ := hst
      rw [Store.assignAlong, Store.assignAlong]
      have hrel := h.bindings hs name
      generalize x.binding? s name = found, y.binding? _ name = found' at hrel
      cases hrel with
      | none => exact ih
      | @some b b' hb =>
          dsimp only
          rw [hb.1]
          split
          · exact .error _
          · exact .ok (h.bind hs hv name false)

/-! ### Texts in lockstep -/

/-- Objects that correspond have the same text, if it is not cut off. -/
theorem textWithin_object (h : c.Lockstep w x y) {i : Nat} (hi : c.Known w (.object i))
    {depth depth' : Nat} (hdepth : i < depth) (hdepth' : c.relocation.object i < depth') :
    (Value.object i).textWithin x depth
      = (Value.object (c.relocation.object i)).textWithin y depth' := by
  obtain ⟨depth, rfl⟩ : ∃ k, depth = k + 1 := ⟨depth - 1, by omega⟩
  obtain ⟨depth', rfl⟩ : ∃ k, depth' = k + 1 := ⟨depth' - 1, by omega⟩
  rw [Value.textWithin, Value.textWithin]
  congr 1
  refine map_eq_map (h.entries hi) fun p hp q hpq => ?_
  obtain ⟨key, v⟩ := p
  obtain ⟨key', v'⟩ := q
  obtain ⟨rfl, hv⟩ : key = key' ∧ c.Values w v v' := hpq
  refine congrArg (Prod.mk key) ?_
  cases hv with
  | @object j j' hj =>
      obtain ⟨hknown, rfl⟩ := hj
      have hlt : j < i := h.held_lt hi (Table.find?_of_mem hp)
      have hlt' : c.relocation.object j < c.relocation.object i :=
        shifted_lt_shifted hlt hknown.object_lt
      exact h.textWithin_object hknown (by omega) (by omega)
  | _ => simp only [Value.textWithin]
termination_by i

/-- **Values that correspond have the same text.** -/
theorem text_eq (h : c.Lockstep w x y) {v v' : Value} (hv : c.Values w v v') :
    v.text x = v'.text y := by
  unfold Value.text
  cases hv with
  | @object i j hi =>
      obtain ⟨hi, rfl⟩ := hi
      have hlt : i < x.objects.size := h.known_has hi
      have hlt' : c.relocation.object i < y.objects.size := h.relocation_object_lt hi
      exact h.textWithin_object hi hlt hlt'
  | _ => simp only [Value.textWithin]

theorem printedLine_eq (h : c.Lockstep w x y) {vs vs' : List Value}
    (hvs : List.Forall₂ (c.Values w) vs vs') :
    Eval.printedLine x vs = Eval.printedLine y vs' :=
  congrArg (String.intercalate " ") (map_eq_map hvs fun _ _ _ hv => h.text_eq hv)

end Lockstep

end Twins

end Scriptlet
