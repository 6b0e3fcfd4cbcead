/-
# Dictionaries with ordered keys

A dictionary from texts to values, kept in the order of its keys.  Texts are ordered by code
points, which is also the order of their UTF-8 bytes.  Each key occurs once: inserting a key again
replaces its value, and leaves all others as they are (`Dict.get?_insert`).
-/
namespace Tabula

/-- Entries in increasing order of their keys. -/
structure Dict (α : Type) where
  entries : List (String × α)
  sorted : entries.Pairwise fun a b => a.1 < b.1
deriving DecidableEq

namespace Dict

variable {α : Type}

/-- The dictionary without entries. -/
def empty : Dict α := ⟨[], .nil⟩

instance : Inhabited (Dict α) := ⟨empty⟩

/-- The value of a key. -/
def get? (d : Dict α) (key : String) : Option α := d.entries.lookup key

/-- The keys, in order. -/
def keys (d : Dict α) : List String := d.entries.map (·.1)

/-- The values, in the order of their keys. -/
def values (d : Dict α) : List α := d.entries.map (·.2)

/-- Whether there are no entries. -/
def isEmpty (d : Dict α) : Bool := d.entries.isEmpty

/-! ## 1. Inserting -/

/-- Puts an entry at its place, in the place of one with the same key. -/
def insertEntry (key : String) (a : α) : List (String × α) → List (String × α)
  | [] => [(key, a)]
  | e :: es =>
    if key < e.1 then (key, a) :: e :: es
    else if key = e.1 then (key, a) :: es
    else e :: insertEntry key a es

theorem key_mem_insertEntry {key : String} {a : α} {es : List (String × α)} {e : String × α}
    (h : e ∈ insertEntry key a es) : e = (key, a) ∨ e ∈ es := by
  induction es with
  | nil => simpa [insertEntry] using h
  | cons e' es ih =>
    unfold insertEntry at h
    split at h
    · simpa using h
    · split at h
      · rcases List.mem_cons.1 h with h | h
        · exact .inl h
        · exact .inr (List.mem_cons_of_mem _ h)
      · rcases List.mem_cons.1 h with h | h
        · exact .inr (h ▸ List.mem_cons_self)
        · exact (ih h).imp id (List.mem_cons_of_mem _)

theorem sorted_insertEntry (key : String) (a : α) {es : List (String × α)}
    (h : es.Pairwise fun a b => a.1 < b.1) :
    (insertEntry key a es).Pairwise fun a b => a.1 < b.1 := by
  induction es with
  | nil => simp [insertEntry]
  | cons e es ih =>
    obtain ⟨he, hes⟩ := List.pairwise_cons.1 h
    unfold insertEntry
    split
    case isTrue hlt =>
      refine List.pairwise_cons.2 ⟨fun e' he' => ?_, h⟩
      rcases List.mem_cons.1 he' with rfl | he'
      · exact hlt
      · exact String.lt_trans hlt (he e' he')
    case isFalse hlt =>
      split
      case isTrue heq => exact List.pairwise_cons.2 ⟨fun e' he' => heq ▸ he e' he', hes⟩
      case isFalse hne =>
        refine List.pairwise_cons.2 ⟨fun e' he' => ?_, ih hes⟩
        rcases key_mem_insertEntry he' with rfl | he'
        · exact Std.lt_of_le_of_ne (String.not_lt.1 hlt) (Ne.symm hne)
        · exact he e' he'

/-- Sets the value of a key. -/
def insert (d : Dict α) (key : String) (a : α) : Dict α :=
  ⟨insertEntry key a d.entries, sorted_insertEntry key a d.sorted⟩

theorem lookup_cons_ite (k k' : String) (a : α) (es : List (String × α)) :
    ((k', a) :: es).lookup k = if k = k' then some a else es.lookup k := by
  rw [List.lookup_cons]
  by_cases h : k = k'
  · simp [h]
  · have : (k == k') = false := by simpa using h
    rw [this, if_neg h]

theorem lookup_insertEntry (key : String) (a : α) (es : List (String × α)) (k : String) :
    (insertEntry key a es).lookup k = if k = key then some a else es.lookup k := by
  induction es with
  | nil => exact lookup_cons_ite k key a []
  | cons e es ih =>
    obtain ⟨k', a'⟩ := e
    unfold insertEntry
    split
    · exact lookup_cons_ite k key a _
    · split
      · rename_i heq
        simp only at heq
        subst heq
        simp only [lookup_cons_ite]
        split <;> rfl
      · rename_i hne
        simp only at hne
        simp only [lookup_cons_ite, ih]
        split
        · rename_i hk
          rw [if_neg fun h => hne (h.symm.trans hk)]
        · rfl

/-- **What was inserted is found, and all else is as before.** -/
theorem get?_insert (d : Dict α) (key : String) (a : α) (k : String) :
    (d.insert key a).get? k = if k = key then some a else d.get? k :=
  lookup_insertEntry key a d.entries k

/-- What is found is there. -/
theorem mem_of_lookup {es : List (String × α)} {k : String} {a : α} (h : es.lookup k = some a) :
    (k, a) ∈ es := by
  obtain ⟨before, after, rfl, -⟩ := List.lookup_eq_some_iff.1 h
  simp

/-! ## 2. From lists -/

/-- The entries of a list; of entries with one key the last counts. -/
def ofList (es : List (String × α)) : Dict α :=
  es.foldl (fun d e => d.insert e.1 e.2) empty

end Dict
end Tabula
