import Columnar.Value.Basic

/-!
# Rows

A row maps names to values. A name that is set again takes the new value; the number of names is the
number of entries.
-/

namespace Columnar

structure Row where
  entries : List (String × Value)
deriving DecidableEq

namespace Row

def empty : Row := ⟨[]⟩

def get? (row : Row) (name : String) : Option Value := row.entries.lookup name

def contains (row : Row) (name : String) : Bool := (row.get? name).isSome

def size (row : Row) : Nat := row.entries.length

def setEntries (name : String) (v : Value) : List (String × Value) → List (String × Value)
  | [] => [(name, v)]
  | (n, w) :: rest => if n = name then (name, v) :: rest else (n, w) :: setEntries name v rest

def set (row : Row) (name : String) (v : Value) : Row := ⟨setEntries name v row.entries⟩

/-- The row of names with their values; of a name that occurs twice the later value counts. -/
def ofPairs (pairs : List (String × Value)) : Row :=
  pairs.foldl (fun row pair => row.set pair.1 pair.2) empty

def only (names : List String) (row : Row) : Row :=
  ⟨row.entries.filter fun entry => entry.1 ∈ names⟩

@[simp] theorem get?_empty (name : String) : empty.get? name = none := rfl

theorem lookup_cons_eq_ite (other name : String) (v : Value) (entries : List (String × Value)) :
    List.lookup other ((name, v) :: entries) =
      if other = name then some v else List.lookup other entries := by
  by_cases h : other = name
  · simp [h]
  · simp [List.lookup_cons, beq_false_of_ne h, h]

theorem get?_set (row : Row) (name other : String) (v : Value) :
    (row.set name v).get? other = if other = name then some v else row.get? other := by
  obtain ⟨entries⟩ := row
  simp only [get?, set]
  induction entries with
  | nil => rw [setEntries, lookup_cons_eq_ite]
  | cons entry rest ih =>
    obtain ⟨n, w⟩ := entry
    by_cases hn : n = name
    · subst hn
      rw [setEntries, if_pos rfl, lookup_cons_eq_ite, lookup_cons_eq_ite]
      by_cases h : other = n <;> simp [h]
    · rw [setEntries, if_neg hn, lookup_cons_eq_ite, lookup_cons_eq_ite, ih]
      by_cases h : other = name
      · subst h
        simp [Ne.symm hn]
      · simp [h]

theorem get?_only (names : List String) (row : Row) (name : String) :
    (row.only names).get? name = if name ∈ names then row.get? name else none := by
  obtain ⟨entries⟩ := row
  simp only [get?, only]
  induction entries with
  | nil => simp
  | cons entry rest ih =>
    obtain ⟨n, v⟩ := entry
    rw [lookup_cons_eq_ite]
    by_cases hn : n ∈ names
    · have hkept : ((n, v) :: rest).filter (fun entry => entry.1 ∈ names) =
          (n, v) :: rest.filter fun entry => entry.1 ∈ names :=
        List.filter_cons_of_pos (decide_eq_true hn)
      rw [hkept, lookup_cons_eq_ite, ih]
      by_cases hname : name = n
      · subst hname
        rw [if_pos rfl, if_pos hn, if_pos rfl]
      · rw [if_neg hname, if_neg hname]
    · have hkept : ((n, v) :: rest).filter (fun entry => entry.1 ∈ names) =
          rest.filter fun entry => entry.1 ∈ names :=
        List.filter_cons_of_neg fun h => hn (of_decide_eq_true h)
      rw [hkept, ih]
      by_cases hname : name ∈ names
      · rw [if_neg fun h : name = n => hn (h ▸ hname)]
      · rw [if_neg hname, if_neg hname]

end Row

end Columnar
