namespace SearchQuery

-- Maps from field names, ordered by name.
structure Fields (α : Type) where
  entries : List (String × α)
  sorted  : entries.Pairwise fun e f => e.1 < f.1
  deriving DecidableEq

namespace Fields

@[ext]
theorem ext {fs gs : Fields α} (h : fs.entries = gs.entries) : fs = gs := by
  cases fs; cases gs; cases h; rfl

def empty : Fields α where
  entries := []
  sorted  := .nil

instance : EmptyCollection (Fields α) where
  emptyCollection := empty

def single (name : String) (value : α) : Fields α where
  entries := [(name, value)]
  sorted  := by simp

def size (fs : Fields α) : Nat :=
  fs.entries.length

-- Sets the value of `name` in an ordered list of entries.
def set (name : String) (value : α) : List (String × α) → List (String × α)
  | []      => [(name, value)]
  | e :: es =>
    if name < e.1 then (name, value) :: e :: es
    else if name = e.1 then (name, value) :: es
    else e :: set name value es

variable {es : List (String × α)}

theorem name_of_mem_set (h : e ∈ set name value es) : e.1 = name ∨ e ∈ es := by
  fun_induction set name value es <;> grind

theorem set_sorted (h : es.Pairwise fun e f => e.1 < f.1) :
    (set name value es).Pairwise fun e f => e.1 < f.1 := by
  fun_induction set name value es
  case case1 => simp
  case case2 e es hn =>
    refine h.cons fun f hf => ?_
    rcases List.mem_cons.mp hf with rfl | hf
    · exact hn
    · exact String.lt_trans hn (List.rel_of_pairwise_cons h hf)
  case case3 he =>
    subst he
    exact h.of_cons.cons fun _ => List.rel_of_pairwise_cons h
  case case4 e es hn he ih =>
    refine (ih h.of_cons).cons fun f hf => ?_
    rcases name_of_mem_set hf with hf | hf
    · rw [hf]
      exact Std.lt_of_le_of_ne (Std.not_lt.mp hn) (Ne.symm he)
    · exact List.rel_of_pairwise_cons h hf

-- The last value that is inserted for a name is the one which counts.
def insert (fs : Fields α) (name : String) (value : α) : Fields α where
  entries := set name value fs.entries
  sorted  := set_sorted fs.sorted

def ofList (es : List (String × α)) : Fields α :=
  es.foldl (fun fs (name, value) => fs.insert name value) ∅

def get? (fs : Fields α) (name : String) : Option α :=
  fs.entries.lookup name

theorem lookup_set : (set name value es).lookup name = some value := by
  fun_induction set name value es <;> grind

theorem lookup_set_ne (h : other ≠ name) : (set name value es).lookup other = es.lookup other := by
  fun_induction set name value es <;> grind

@[simp]
theorem get?_insert {fs : Fields α} : (fs.insert name value).get? name = some value :=
  lookup_set

theorem get?_insert_ne {fs : Fields α} (h : other ≠ name) :
    (fs.insert name value).get? other = fs.get? other :=
  lookup_set_ne h

end Fields

end SearchQuery
