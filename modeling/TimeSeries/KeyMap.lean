/-!
# Maps with ordered keys

A `KeyMap` holds one value for each of finitely many text keys. Its entries stand in strictly
increasing key order, and that order is part of the type. Texts are compared code point by code
point, which is the order of their UTF-8 bytes.

The look-up `get?` is the view through which a map is read: `get?_insert_self` and
`get?_insert_of_ne` say what an insertion does to it, and `ext_get?` says that nothing else is
remembered. So a map built by insertions depends only on the last value given to each key.
-/

namespace TimeSeries

namespace KeyMap

/-- One insertion into an ordered list of entries; an entry with the same key is replaced. -/
def insertEntry {α : Type} (k : String) (v : α) : List (String × α) → List (String × α)
  | [] => [(k, v)]
  | e :: rest =>
    if k < e.1 then (k, v) :: e :: rest
    else if k = e.1 then (k, v) :: rest
    else e :: insertEntry k v rest

/-- The value stored under a key in a list of entries. -/
def lookup {α : Type} (k : String) : List (String × α) → Option α
  | [] => none
  | e :: rest => if k = e.1 then some e.2 else lookup k rest

theorem mem_insertEntry {α : Type} {k : String} {v : α} {e : String × α}
    {l : List (String × α)} (h : e ∈ insertEntry k v l) : e = (k, v) ∨ e ∈ l := by
  induction l with
  | nil => simpa [insertEntry] using h
  | cons head rest ih =>
    rw [insertEntry] at h
    split at h
    · simpa using h
    · split at h
      · rcases List.mem_cons.1 h with h | h
        · exact Or.inl h
        · exact Or.inr (List.mem_cons_of_mem _ h)
      · rcases List.mem_cons.1 h with h | h
        · exact Or.inr (h ▸ List.mem_cons_self)
        · rcases ih h with h | h
          · exact Or.inl h
          · exact Or.inr (List.mem_cons_of_mem _ h)

theorem ordered_insertEntry {α : Type} (k : String) (v : α) {l : List (String × α)}
    (h : l.Pairwise fun a b => a.1 < b.1) :
    (insertEntry k v l).Pairwise fun a b => a.1 < b.1 := by
  induction l with
  | nil => simp [insertEntry]
  | cons head rest ih =>
    obtain ⟨hhead, hrest⟩ := List.pairwise_cons.1 h
    rw [insertEntry]
    split
    · next hlt =>
      refine List.pairwise_cons.2 ⟨?_, h⟩
      intro e he
      rcases List.mem_cons.1 he with he | he
      · exact he ▸ hlt
      · exact String.lt_trans hlt (hhead e he)
    · next hlt =>
      split
      · next heq => exact List.pairwise_cons.2 ⟨fun e he => heq ▸ hhead e he, hrest⟩
      · next hne =>
        refine List.pairwise_cons.2 ⟨?_, ih hrest⟩
        intro e he
        rcases mem_insertEntry he with he | he
        · subst he
          rcases String.le_total head.1 k with hle | hle
          · exact String.not_le.1 fun hge => hne (String.le_antisymm hge hle)
          · exact absurd (String.not_le.1 fun hge => hne (String.le_antisymm hle hge)) hlt
        · exact hhead e he

theorem lookup_insertEntry_self {α : Type} (k : String) (v : α) (l : List (String × α)) :
    lookup k (insertEntry k v l) = some v := by
  induction l with
  | nil => simp [insertEntry, lookup]
  | cons head rest ih =>
    rw [insertEntry]
    split
    · simp [lookup]
    · split
      · simp [lookup]
      · next hne => simp [lookup, hne, ih]

theorem lookup_insertEntry_of_ne {α : Type} {k k' : String} (h : k' ≠ k) (v : α)
    (l : List (String × α)) : lookup k' (insertEntry k v l) = lookup k' l := by
  induction l with
  | nil => simp [insertEntry, lookup, h]
  | cons head rest ih =>
    rw [insertEntry]
    split
    · simp [lookup, h]
    · split
      · next heq => simp [lookup, h, ← heq]
      · simp [lookup, ih]

theorem mem_keys_insertEntry {α : Type} {k k' : String} {v : α} {l : List (String × α)} :
    k' ∈ (insertEntry k v l).map Prod.fst ↔ k' = k ∨ k' ∈ l.map Prod.fst := by
  induction l with
  | nil => simp [insertEntry]
  | cons head rest ih =>
    rw [insertEntry]
    split
    · simp
    · split
      · next heq => simp [heq]
      · rw [List.map_cons, List.mem_cons, ih, List.map_cons, List.mem_cons]
        exact or_left_comm

/-- A key below every key of the list is not found in it. -/
theorem lookup_eq_none_of_lt {α : Type} {k : String} {l : List (String × α)}
    (h : ∀ e ∈ l, k < e.1) : lookup k l = none := by
  induction l with
  | nil => rfl
  | cons head rest ih =>
    have hne : k ≠ head.1 := fun heq =>
      String.lt_irrefl k (by simpa [← heq] using h head List.mem_cons_self)
    simp [lookup, hne, ih fun e he => h e (List.mem_cons_of_mem _ he)]

/-- Ordered lists of entries with the same look-ups are the same list. -/
theorem eq_of_lookup_eq {α : Type} {l m : List (String × α)}
    (hl : l.Pairwise fun a b => a.1 < b.1) (hm : m.Pairwise fun a b => a.1 < b.1)
    (h : ∀ k, lookup k l = lookup k m) : l = m := by
  induction l generalizing m with
  | nil =>
    cases m with
    | nil => rfl
    | cons e rest => simpa [lookup] using h e.1
  | cons d l ih =>
    cases m with
    | nil => simpa [lookup] using h d.1
    | cons e m =>
      obtain ⟨hd, hl⟩ := List.pairwise_cons.1 hl
      obtain ⟨he, hm⟩ := List.pairwise_cons.1 hm
      have hkey : d.1 = e.1 := by
        rcases Decidable.em (d.1 = e.1) with heq | hne
        · exact heq
        · exfalso
          rcases String.le_total d.1 e.1 with hle | hle
          · have hlt : d.1 < e.1 := String.not_le.1 fun hge => hne (String.le_antisymm hle hge)
            have := h d.1
            rw [lookup_eq_none_of_lt (l := e :: m)] at this
            · simp [lookup] at this
            · intro x hx
              rcases List.mem_cons.1 hx with hx | hx
              · exact hx ▸ hlt
              · exact String.lt_trans hlt (he x hx)
          · have hlt : e.1 < d.1 := String.not_le.1 fun hge => hne (String.le_antisymm hge hle)
            have := h e.1
            rw [lookup_eq_none_of_lt (l := d :: l)] at this
            · simp [lookup] at this
            · intro x hx
              rcases List.mem_cons.1 hx with hx | hx
              · exact hx ▸ hlt
              · exact String.lt_trans hlt (hd x hx)
      have hvalue : d.2 = e.2 := by simpa [lookup, hkey] using h d.1
      have hrest : l = m := by
        refine ih hl hm fun k => ?_
        rcases Decidable.em (k = d.1) with heq | hne
        · subst heq
          rw [lookup_eq_none_of_lt hd, lookup_eq_none_of_lt fun x hx => hkey ▸ he x hx]
        · simpa [lookup, hne, ← hkey] using h k
      rw [hrest, Prod.ext hkey hvalue]

end KeyMap

/-- A map from texts to values, its entries in strictly increasing key order. -/
structure KeyMap (α : Type) where
  entries : List (String × α)
  /-- Keys increase along the list, so no key occurs twice. -/
  ordered : entries.Pairwise fun a b => a.1 < b.1
deriving DecidableEq

namespace KeyMap

variable {α : Type}

def empty : KeyMap α := ⟨[], List.Pairwise.nil⟩

instance : Inhabited (KeyMap α) := ⟨empty⟩

def get? (m : KeyMap α) (k : String) : Option α := lookup k m.entries

/-- The map with `v` under `k`, whatever stood there before. -/
def insert (m : KeyMap α) (k : String) (v : α) : KeyMap α :=
  ⟨insertEntry k v m.entries, ordered_insertEntry k v m.ordered⟩

/-- The entries are inserted from left to right, so the last one of a key stays. -/
def insertList (m : KeyMap α) (l : List (String × α)) : KeyMap α :=
  l.foldl (fun m e => m.insert e.1 e.2) m

/-- The map of a list of entries, the last one of a key counting. -/
def ofList (l : List (String × α)) : KeyMap α := empty.insertList l

def toList (m : KeyMap α) : List (String × α) := m.entries

def keys (m : KeyMap α) : List String := m.entries.map Prod.fst

def size (m : KeyMap α) : Nat := m.entries.length

def isEmpty (m : KeyMap α) : Bool := m.entries.isEmpty

@[simp] theorem get?_empty (k : String) : (empty : KeyMap α).get? k = none := rfl

@[simp] theorem get?_insert_self (m : KeyMap α) (k : String) (v : α) :
    (m.insert k v).get? k = some v := lookup_insertEntry_self k v m.entries

theorem get?_insert_of_ne (m : KeyMap α) {k k' : String} (h : k' ≠ k) (v : α) :
    (m.insert k v).get? k' = m.get? k' := lookup_insertEntry_of_ne h v m.entries

theorem get?_insertList_of_forall_ne {l : List (String × α)} {k : String} (h : ∀ e ∈ l, e.1 ≠ k)
    (m : KeyMap α) : (m.insertList l).get? k = m.get? k := by
  induction l generalizing m with
  | nil => rfl
  | cons e l ih =>
    have hrest := ih (fun d hd => h d (List.mem_cons_of_mem e hd)) (m.insert e.1 e.2)
    exact hrest.trans (get?_insert_of_ne m (Ne.symm (h e List.mem_cons_self)) e.2)

/-- The last entry of a key is the one that counts. -/
theorem get?_ofList_append_cons {l more : List (String × α)} {k : String}
    (h : ∀ e ∈ more, e.1 ≠ k) (v : α) : (ofList (l ++ (k, v) :: more)).get? k = some v := by
  rw [ofList, insertList, List.foldl_append, List.foldl_cons]
  exact (get?_insertList_of_forall_ne h _).trans (get?_insert_self _ k v)

theorem mem_keys_insert {m : KeyMap α} {k k' : String} {v : α} :
    k' ∈ (m.insert k v).keys ↔ k' = k ∨ k' ∈ m.keys := mem_keys_insertEntry

theorem mem_keys_insertList {m : KeyMap α} {k : String} {l : List (String × α)} :
    k ∈ (m.insertList l).keys ↔ k ∈ l.map Prod.fst ∨ k ∈ m.keys := by
  induction l generalizing m with
  | nil => simp [insertList]
  | cons e l ih =>
    have hrest : k ∈ ((m.insert e.1 e.2).insertList l).keys ↔
        k ∈ l.map Prod.fst ∨ k ∈ (m.insert e.1 e.2).keys := ih
    rw [mem_keys_insert] at hrest
    rw [List.map_cons, List.mem_cons, or_assoc, or_left_comm]
    exact hrest

/-- The map of a list of entries has the keys of the entries. -/
theorem mem_keys_ofList {k : String} {l : List (String × α)} :
    k ∈ (ofList l).keys ↔ k ∈ l.map Prod.fst :=
  mem_keys_insertList.trans (or_iff_left List.not_mem_nil)

theorem ext_get? {m n : KeyMap α} (h : ∀ k, m.get? k = n.get? k) : m = n := by
  obtain ⟨l, hl⟩ := m
  obtain ⟨l', hl'⟩ := n
  have : l = l' := eq_of_lookup_eq hl hl' h
  subst this
  rfl

end KeyMap

end TimeSeries
