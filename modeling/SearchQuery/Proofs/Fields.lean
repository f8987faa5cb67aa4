import Mathlib
import SearchQuery.Fields

namespace SearchQuery.Fields

variable {es ds : List (String × α)} {fs gs : Fields α} {name : String}

@[simp]
theorem lookup_cons_self {e : String × α} : (e :: es).lookup e.1 = some e.2 := by
  simp [List.lookup]

theorem lookup_cons_ne {e : String × α} (h : name ≠ e.1) :
    (e :: es).lookup name = es.lookup name := by
  rw [List.lookup, beq_false_of_ne h]

-- The keys of an ordered list which come behind `name` do not have it among them.
theorem lookup_eq_none (h : ∀ e ∈ es, name < e.1) : es.lookup name = none := by
  induction es
  case nil => rfl
  case cons e es hi =>
    have hn : name ≠ e.1 := by
      intro hn
      exact String.lt_irrefl _ (hn ▸ h e (by simp))
    have ht := hi fun d hd => h d (by simp [hd])
    rw [lookup_cons_ne hn, ht]

theorem not_lt_of_lookup {d : String × α} (hd : (d :: ds).Pairwise fun e d => e.1 < d.1)
    (h : (d :: ds).lookup name = some value) : ¬name < d.1 := by
  intro hn
  have hl : (d :: ds).lookup name = none := by
    apply lookup_eq_none
    intro e he
    cases List.mem_cons.mp he
    case inl he => exact he ▸ hn
    case inr he => exact String.lt_trans hn (List.rel_of_pairwise_cons hd he)
  simp [h] at hl

theorem eq_of_lookup_eq (he : es.Pairwise fun e d => e.1 < d.1)
    (hd : ds.Pairwise fun e d => e.1 < d.1) (h : ∀ name, es.lookup name = ds.lookup name) :
    es = ds := by
  induction es generalizing ds
  case nil =>
    cases ds
    case nil => rfl
    case cons d ds => exact absurd (h d.1) (by simp)
  case cons e es hi =>
    cases ds
    case nil => exact absurd (h e.1) (by simp)
    case cons d ds =>
      have hes : es.lookup e.1 = none := lookup_eq_none fun _ => List.rel_of_pairwise_cons he
      have hds : ds.lookup d.1 = none := lookup_eq_none fun _ => List.rel_of_pairwise_cons hd
      -- The smallest key of one list cannot be missing in the other one.
      have hk : e.1 = d.1 := by
        have h₁ := not_lt_of_lookup hd ((h e.1).symm.trans lookup_cons_self)
        have h₂ := not_lt_of_lookup he ((h d.1).trans lookup_cons_self)
        exact Std.le_antisymm (Std.not_lt.mp h₂) (Std.not_lt.mp h₁)
      have hv := h e.1
      rw [lookup_cons_self, hk, lookup_cons_self] at hv
      have ht : es = ds := by
        refine hi he.of_cons hd.of_cons fun name => ?_
        by_cases hn : name = e.1
        case pos => rw [hn, hes, hk, hds]
        case neg =>
          have := h name
          rwa [lookup_cons_ne hn, lookup_cons_ne (hk ▸ hn)] at this
      rw [ht, Prod.ext hk (Option.some.inj hv)]

theorem ext_get? (h : ∀ name, fs.get? name = gs.get? name) : fs = gs :=
  ext <| eq_of_lookup_eq fs.sorted gs.sorted h

-- The fields of both maps, of which those of `gs` count where both have one.
def union (fs gs : Fields α) : Fields α :=
  ofList (fs.entries ++ gs.entries)

theorem get?_foldl : (es.foldl (fun fs (name, value) => fs.insert name value) fs).get? name =
    (es.reverse.lookup name).or (fs.get? name) := by
  induction es generalizing fs
  case nil => simp
  case cons e es hi =>
    rw [List.foldl_cons, hi, List.reverse_cons, List.lookup_append, Option.or_assoc]
    congr 1
    by_cases hn : name = e.1
    case pos => simp [hn]
    case neg => simp [get?_insert_ne hn, lookup_cons_ne hn]

theorem get?_ofList : (ofList es).get? name = es.reverse.lookup name := by
  rw [ofList, get?_foldl]
  exact Option.or_none

theorem lookup_reverse (h : es.Pairwise fun e d => e.1 < d.1) :
    es.reverse.lookup name = es.lookup name := by
  induction es
  case nil => rfl
  case cons e es hi =>
    rw [List.reverse_cons, List.lookup_append, hi h.of_cons]
    by_cases hn : name = e.1
    case pos =>
      have := lookup_eq_none fun _ => List.rel_of_pairwise_cons h
      simp [hn, this]
    case neg => simp [lookup_cons_ne hn]

theorem get?_union : (fs.union gs).get? name = (gs.get? name).or (fs.get? name) := by
  rw [union, get?_ofList, List.reverse_append, List.lookup_append, lookup_reverse gs.sorted,
    lookup_reverse fs.sorted]
  rfl

theorem ofList_append : ofList (es ++ ds) = (ofList es).union (ofList ds) := by
  apply ext_get?
  intro name
  simp [get?_union, get?_ofList, List.lookup_append]

theorem lookup_of_mem {e : String × α} (h : es.Pairwise fun e d => e.1 < d.1) (he : e ∈ es) :
    es.lookup e.1 = some e.2 := by
  induction es
  case nil => contradiction
  case cons d es hi =>
    cases List.mem_cons.mp he
    case inl he => rw [he, lookup_cons_self]
    case inr he =>
      have hn : e.1 ≠ d.1 := fun hn => String.lt_irrefl _ (hn ▸ List.rel_of_pairwise_cons h he)
      rw [lookup_cons_ne hn, hi h.of_cons he]

theorem mem_entries_iff {e : String × α} : e ∈ fs.entries ↔ fs.get? e.1 = some e.2 := by
  constructor
  case mp => exact lookup_of_mem fs.sorted
  case mpr =>
    intro h
    have ⟨l₁, l₂, he, _⟩ := List.lookup_eq_some_iff.mp h
    simp [he]

theorem mem_names_iff : name ∈ fs.entries.map (·.1) ↔ (fs.get? name).isSome := by
  simp [get?, List.lookup_isSome_iff]

theorem mem_names_ofList : name ∈ (ofList es).entries.map (·.1) ↔ name ∈ es.map (·.1) := by
  rw [mem_names_iff, get?_ofList]
  simp [List.lookup_isSome_iff]

-- An entry is the last one for its name.
theorem mem_ofList_iff {e : String × α} : e ∈ (ofList es).entries ↔
    ∃ front back, es = front ++ e :: back ∧ ∀ d ∈ back, d.1 ≠ e.1 := by
  rw [mem_entries_iff, get?_ofList, List.lookup_eq_some_iff]
  constructor
  case mp =>
    intro ⟨l₁, l₂, he, hl⟩
    refine ⟨l₂.reverse, l₁.reverse, by simpa using congrArg List.reverse he, fun d hd => ?_⟩
    simpa [ne_comm] using hl d (by simpa using hd)
  case mpr =>
    intro ⟨front, back, he, hb⟩
    refine ⟨back.reverse, front.reverse, by simp [he], fun d hd => ?_⟩
    simpa [ne_comm] using hb d (by simpa using hd)

end SearchQuery.Fields
