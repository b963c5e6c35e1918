import Calculator.Decimal.Basic

/-!
# The Store of Named Values

What the calculator remembers between statements: one number for each name that
has been written.

A store is a list of entries with distinct names, looked at only through
`Store.get?`. Writing to a known name replaces its entry in place and writing to a
new one adds an entry at the end, so no name is ever lost.

## Main definitions

* `Store`: The names and their numbers.
* `Store.get?`: The number of a name.
* `Store.insert`: The store after a write.
* `Store.constants`: The store that a session starts with.

## Theorems

* `get?_insert`: A write changes what is read at its own name and nothing else.
* `get?_insert_isSome`: A write removes no name.
-/

namespace Calculator

/-- The names that have been written, each with its number. -/
structure Store where
  entries : List (String × Binary64)
  deriving DecidableEq

namespace Store

/-- The number of a name, if it has one. -/
def get? (store : Store) (name : String) : Option Binary64 :=
  store.entries.lookup name

/-- The entries after a write: the entry of the name is replaced, or added at the
    end. -/
def insertEntry (name : String) (value : Binary64) :
    List (String × Binary64) → List (String × Binary64)
  | [] => [(name, value)]
  | entry :: rest =>
      if entry.1 = name then (name, value) :: rest
      else entry :: insertEntry name value rest

/-- The store after a number has been written to a name. -/
def insert (store : Store) (name : String) (value : Binary64) : Store :=
  { entries := insertEntry name value store.entries }

/-- A look-up after a write to the entries. -/
theorem lookup_insertEntry (entries : List (String × Binary64)) (name other : String)
    (value : Binary64) :
    (insertEntry name value entries).lookup other
      = if other = name then some value else entries.lookup other := by
  induction entries with
  | nil =>
      by_cases h : other = name <;>
        simp only [insertEntry, List.lookup_cons, List.lookup_nil, h, beq_self_eq_true, if_pos,
          if_neg, beq_eq_false_iff_ne.mpr, ne_eq, not_false_eq_true]
  | cons entry rest ih =>
      obtain ⟨key, old⟩ := entry
      by_cases hkey : key = name
      · -- The entry is replaced, so a look-up of another name passes it as before.
        subst hkey
        by_cases h : other = key <;>
          simp only [insertEntry, List.lookup_cons, h, beq_self_eq_true, if_true, if_false,
            beq_eq_false_iff_ne.mpr, ne_eq, not_false_eq_true]
      · -- The entry stays, and the write happens behind it.
        simp only [insertEntry, hkey, if_false]
        by_cases h : other = key
        · subst h
          simp only [List.lookup_cons, beq_self_eq_true, hkey, if_false]
        · simp only [List.lookup_cons, beq_eq_false_iff_ne.mpr h, ih]

/-- A write changes what is read at its own name and nothing else. -/
theorem get?_insert (store : Store) (name other : String) (value : Binary64) :
    (store.insert name value).get? other
      = if other = name then some value else store.get? other :=
  lookup_insertEntry store.entries name other value

/-- A write removes no name. -/
theorem get?_insert_isSome {store : Store} {other : String}
    (h : (store.get? other).isSome = true) (name : String) (value : Binary64) :
    ((store.insert name value).get? other).isSome = true := by
  rw [get?_insert]
  split
  · rfl
  · exact h

/-- The number nearest to π. -/
def pi : Binary64 :=
  Decimal.toBinary64 { negative := false, coefficient := 3141592653589793, exponent := -15 }

/-- The number nearest to the base of the natural logarithm. -/
def e : Binary64 :=
  Decimal.toBinary64 { negative := false, coefficient := 2718281828459045, exponent := -15 }

/-- The store that a session starts with. Its constants are ordinary names and can be
    written over. -/
def constants : Store :=
  { entries := [("pi", pi), ("e", e)] }

end Store

end Calculator
