import SearchQuery.Text.Size

namespace SearchQuery.Text

-- Cuts a text behind its first `n` bytes.
def cut? : Nat → List Char → Option (List Char × List Char)
  | 0, cs          => some ([], cs)
  | _ + 1, []      => none
  | n + 1, c :: cs =>
    if c.utf8Size ≤ n + 1 then
      (cut? (n + 1 - c.utf8Size) cs).map fun (u, r) => (c :: u, r)
    else
      none

def before? (n : Nat) (cs : List Char) : Option (List Char) :=
  (cut? n cs).map (·.1)

def behind? (n : Nat) (cs : List Char) : Option (List Char) :=
  (cut? n cs).map (·.2)

-- What stands in `cs` from byte `m` on, before byte `n`.
def slice? (m n : Nat) (cs : List Char) : Option (List Char) := do
  let u ← before? n cs
  behind? m u

variable {m n : Nat} {cs u v r : List Char}

theorem length_le_size (cs : List Char) : cs.length ≤ size cs := by
  induction cs
  case nil => exact Nat.le_refl 0
  case cons c cs hi =>
    have := c.utf8Size_pos
    rw [List.length_cons, size_cons]
    omega

theorem cut?_eq_some_iff : cut? n cs = some (u, r) ↔ cs = u ++ r ∧ size u = n := by
  constructor
  case mp =>
    intro h
    fun_induction cut? n cs generalizing u
    case case1 => cases h; simp
    case case2 => cases h
    case case3 hc ih =>
      obtain ⟨⟨v, t⟩, hv, he⟩ := Option.map_eq_some_iff.mp h
      cases he
      obtain ⟨rfl, hs⟩ := ih hv
      exact ⟨rfl, by simp [hs]; omega⟩
    case case4 => cases h
  case mpr =>
    rintro ⟨rfl, rfl⟩
    induction u
    case nil => simp [cut?]
    case cons c u hi =>
      obtain ⟨k, hk⟩ := Nat.exists_eq_add_one.mpr (Nat.add_pos_left c.utf8Size_pos (size u))
      have hs : k + 1 - c.utf8Size = size u := by omega
      rw [size_cons, hk, List.cons_append, cut?, if_pos (by omega), hs, hi]
      rfl

theorem before?_eq_some_iff : before? n cs = some u ↔ ∃ r, cs = u ++ r ∧ size u = n := by
  simp [before?, cut?_eq_some_iff]

theorem behind?_eq_some_iff : behind? n cs = some r ↔ ∃ u, cs = u ++ r ∧ size u = n := by
  simp [behind?, cut?_eq_some_iff]

theorem length_lt_of_behind? (hn : 0 < n) (h : behind? n cs = some r) : r.length < cs.length := by
  obtain ⟨u, rfl, rfl⟩ := behind?_eq_some_iff.mp h
  have hu : u ≠ [] := fun hu => Nat.ne_of_gt hn (size_eq_zero_iff.mpr hu)
  have := List.length_pos_iff.mpr hu
  rw [List.length_append]
  omega

theorem behind?_append : behind? (size u) (u ++ r) = some r :=
  behind?_eq_some_iff.mpr ⟨u, rfl, rfl⟩

theorem slice?_eq_some_iff :
    slice? m n cs = some v ↔ ∃ u r, cs = u ++ (v ++ r) ∧ size u = m ∧ size (u ++ v) = n := by
  simp only [slice?, Option.bind_eq_bind, Option.bind_eq_some_iff, before?_eq_some_iff,
    behind?_eq_some_iff]
  constructor
  case mp =>
    rintro ⟨_, ⟨r, rfl, hn⟩, u, rfl, hm⟩
    exact ⟨u, r, List.append_assoc .., hm, hn⟩
  case mpr =>
    rintro ⟨u, r, rfl, hm, hn⟩
    exact ⟨u ++ v, ⟨r, (List.append_assoc ..).symm, hn⟩, u, rfl, hm⟩

end SearchQuery.Text
